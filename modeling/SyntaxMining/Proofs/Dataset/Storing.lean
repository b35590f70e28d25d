import Mathlib.Data.List.Nodup
import Mathlib.Logic.Function.Basic
import SyntaxMining.Dataset.Store
import SyntaxMining.Proofs.Workspace.Change

/-!
# Storing and closing

One operation on a store at a time. While a store is in use, its directory stays where it is, and
the open partitions are those for which lines are waiting. Storing a line adds it to the waiting
ones, unless something stands in the way of the partition's folder or file; then nothing happens at
all. Closing turns the waiting lines into the content of the files.
-/

namespace SyntaxMining.Dataset

/-! ## Places of partitions -/

/-- Place of a partition's folder, below the folder of the dataset. -/
def Holdout.folderAt (home : List String) (holdout : Holdout) : List String :=
  home ++ [holdout.folder]

/-- Place of a partition's file. -/
def Holdout.place (home : List String) (holdout : Holdout) : List String :=
  holdout.folderAt home ++ [fileName]

variable {holdout other : Holdout} {home : List String}

theorem Holdout.folder_injective : Function.Injective Holdout.folder := by
  intro holdout other h
  cases holdout <;> cases other <;> simp_all [folder]

theorem Holdout.folder_ne_parent (holdout : Holdout) : holdout.folder ≠ ".." := by
  cases holdout <;> decide

theorem Holdout.not_folderAt_prefix_place (h : holdout ≠ other) :
    ¬ holdout.folderAt home <+: other.place home := by
  intro hle
  simp only [folderAt, place, List.append_assoc, List.prefix_append_right_inj, List.cons_append,
    List.nil_append, List.cons_prefix_cons] at hle
  exact h (folder_injective hle.1)

theorem Holdout.not_place_prefix_folderAt : ¬ other.place home <+: holdout.folderAt home := by
  intro hle
  have hlength := hle.length_le
  simp [place, folderAt] at hlength

theorem Holdout.not_place_prefix_place (h : holdout ≠ other) :
    ¬ holdout.place home <+: other.place home :=
  fun hle ↦ not_folderAt_prefix_place h ((List.prefix_append _ _).trans hle)

/-! ## What a partition's file holds -/

/-- Text of lines, each with its newline. -/
def textOf (lines : List String) : String :=
  String.join (lines.map (· ++ "\n"))

@[simp] theorem textOf_nil : textOf [] = "" := rfl

theorem textOf_concat (lines : List String) (line : String) :
    textOf (lines ++ [line]) = textOf lines ++ line ++ "\n" := by
  simp [textOf, String.append_assoc]

/-- The waiting text of a partition, in the place of its file. -/
def writerOf (home : List String) (lines : Holdout → List String) (holdout : Holdout) :
    Holdout × Writer :=
  (holdout, ⟨holdout.place home, textOf (lines holdout)⟩)

/-- Why a partition cannot be opened: something else has the name of its folder, or its file's name
belongs to a folder, or to a link that leads into a folder that does not exist. -/
inductive Blocks (workspace : Workspace) (directory : String) (home : List String)
    (holdout : Holdout) : FileError → Prop where
  | folder {item : Item} : workspace.lookup (holdout.folderAt home) = .ok item →
      (∀ items, item ≠ .folder items) →
      Blocks workspace directory home holdout
        ⟨.fileExists, Path.within directory [holdout.folder]⟩
  | file : workspace.IsFolder (holdout.place home) →
      Blocks workspace directory home holdout
        ⟨.isAFolder, Path.within directory [holdout.folder, fileName]⟩
  | link : workspace.lookup (holdout.place home) = .ok .link →
      Blocks workspace directory home holdout
        ⟨.notFound, Path.within directory [holdout.folder, fileName]⟩

variable {workspace made : Workspace} {directory : String}

theorem Blocks.fault {error : FileError} (h : Blocks workspace directory home holdout error) :
    error.fault = .fileExists ∨ error.fault = .isAFolder ∨
      error.fault = .notFound ∧ workspace.lookup (holdout.place home) = .ok .link := by
  cases h with
  | folder => exact .inl rfl
  | file => exact .inr (.inl rfl)
  | link hlink => exact .inr (.inr ⟨rfl, hlink⟩)

theorem Blocks.unique {error other : FileError} (h : Blocks workspace directory home holdout error)
    (h' : Blocks workspace directory home holdout other) : error = other := by
  cases h with
  | folder hitem hleaf =>
    cases h' with
    | folder => rfl
    | file hplace => exact absurd hplace (Workspace.not_isFolder_below hitem hleaf)
    | link hlink => exact absurd hlink (Workspace.lookup_below_ne_ok hitem hleaf)
  | file hplace =>
    obtain ⟨items, hitems⟩ := hplace
    cases h' with
    | folder hitem hleaf => exact absurd hitems (Workspace.lookup_below_ne_ok hitem hleaf)
    | file => rfl
    | link hlink => simp [hitems] at hlink
  | link hlink =>
    cases h' with
    | folder hitem hleaf => exact absurd hlink (Workspace.lookup_below_ne_ok hitem hleaf)
    | file hplace =>
      obtain ⟨items, hitems⟩ := hplace
      simp [hlink] at hitems
    | link => rfl

theorem not_blocks_of_file {file : SourceFile} {error : FileError}
    (hfile : workspace.lookup (holdout.place home) = .ok (.file file)) :
    ¬ Blocks workspace directory home holdout error := by
  intro h
  cases h with
  | folder hitem hleaf => exact Workspace.lookup_below_ne_ok hitem hleaf hfile
  | file hplace =>
    obtain ⟨items, hitems⟩ := hplace
    simp [hfile] at hitems
  | link hlink => simp [hfile] at hlink

/-- A partition is open: its file is there, and nothing else has changed. -/
structure Opens (before after : Workspace) (home : List String) (holdout : Holdout) : Prop where
  keeps : Workspace.Keeps {holdout.place home} before after
  file : ∃ file, after.lookup (holdout.place home) = .ok (.file file)
  other : ∀ other, other ≠ holdout →
    after.lookup (other.place home) = before.lookup (other.place home)

/-- What asking for a partition comes to: it is blocked and nothing happens, or it is open and gives
something good. -/
inductive Attempt {α : Type} (workspace : Workspace) (directory : String) (home : List String)
    (holdout : Holdout) (good : Workspace → α → Prop) : Workspace × Except FileError α → Prop where
  | blocked {error : FileError} (blocks : Blocks workspace directory home holdout error) :
      Attempt workspace directory home holdout good (workspace, .error error)
  | opened {made : Workspace} {result : α}
      (free : ∀ error, ¬ Blocks workspace directory home holdout error)
      (opens : Opens workspace made home holdout) (holds : good made result) :
      Attempt workspace directory home holdout good (made, .ok result)

namespace Store

variable {store : Store} {lines : Holdout → List String} {line : String} {options : LineOptions}

/-- A store in use: its directory leads to `home`, and lines wait for the open partitions. -/
structure Serves (store : Store) (workspace : Workspace) (home : List String)
    (lines : Holdout → List String) : Prop where
  found : workspace.makeFolder store.directory = (workspace, .ok home)
  writers : ∃ opened : List Holdout, opened.Nodup ∧
    (∀ holdout, holdout ∈ opened ↔ lines holdout ≠ []) ∧
    store.writers = opened.map (writerOf home lines)
  file : ∀ holdout, lines holdout ≠ [] →
    ∃ file, workspace.lookup (holdout.place home) = .ok (.file file)

/-! ## Opening -/

theorem openAt_serves {store : Store} (h : openAt workspace directory options = (made, .ok store)) :
    store.directory = directory ∧ store.options = options ∧ Workspace.Keeps ∅ workspace made ∧
      ∃ home, store.Serves made home fun _ ↦ [] := by
  have hkeeps := workspace.keeps_makeFolderWithin directory []
  rw [openAt] at h
  split at h
  · simp at h
  · next reached home hmade =>
    obtain ⟨rfl, rfl⟩ : reached = made ∧ ⟨directory, options, []⟩ = store := by simpa using h
    rw [← Workspace.makeFolder, hmade] at hkeeps
    have hfound : reached.makeFolder directory = (reached, .ok home) :=
      Workspace.makeFolder_again hmade (.refl ∅ reached)
    exact ⟨rfl, rfl, hkeeps, home, hfound, ⟨[], by simp⟩, by simp⟩

/-- Where the folder of a partition is there, only its file can stand in the way. -/
theorem openWriter_of_makeFolder
    (h : workspace.makeFolderWithin store.directory [holdout.folder] =
      (made, .ok (holdout.folderAt home))) :
    (made.IsFolder (holdout.place home) ∧ store.openWriter workspace holdout = (made, .error
      ⟨.isAFolder, Path.within store.directory [holdout.folder, fileName]⟩)) ∨
    (made.lookup (holdout.place home) = .ok .link ∧ store.openWriter workspace holdout = (made,
      .error ⟨.notFound, Path.within store.directory [holdout.folder, fileName]⟩)) ∨
    (¬ made.IsFolder (holdout.place home) ∧ made.lookup (holdout.place home) ≠ .ok .link ∧
      store.openWriter workspace holdout =
        (made.writeFile (holdout.place home) [], .ok ⟨holdout.place home, ""⟩)) := by
  unfold openWriter
  simp only [h]
  split
  · next items hitems => exact .inl ⟨⟨items, hitems⟩, rfl⟩
  · next hlink => exact .inr (.inl ⟨hlink, rfl⟩)
  · next hfolder hlink => exact .inr (.inr ⟨fun ⟨items, h⟩ ↦ hfolder items h, hlink, rfl⟩)

theorem opens_writeFile (hkeeps : Workspace.Keeps ∅ workspace made)
    (hfolder : made.IsFolder (holdout.folderAt home))
    (hplace : ¬ made.IsFolder (holdout.place home))
    (hother : ∀ other, other ≠ holdout →
      made.lookup (other.place home) = workspace.lookup (other.place home)) :
    Opens workspace (made.writeFile (holdout.place home) []) home holdout where
  keeps := (hkeeps.mono (Set.empty_subset _)).trans (hfolder.keeps_writeFile hplace [])
  file := by
    obtain ⟨file, hfile, -⟩ := hfolder.lookup_writeFile_self fileName []
    exact ⟨file, hfile⟩
  other other hne := by
    rw [← hother other hne]
    apply Workspace.lookup_writeFile_of_apart
    · exact Holdout.not_place_prefix_place hne.symm
    · exact Holdout.not_place_prefix_place hne

section Opening

variable (hfound : workspace.makeFolder store.directory = (workspace, .ok home))
include hfound

theorem openWriter_of_isFolder (hfolder : workspace.IsFolder (holdout.folderAt home)) :
    Attempt workspace store.directory home holdout
      (fun _ writer ↦ writer = ⟨holdout.place home, ""⟩) (store.openWriter workspace holdout) := by
  obtain ⟨items, hitems⟩ := hfolder
  have hmade : workspace.makeFolderWithin store.directory [holdout.folder] =
      (workspace, .ok (holdout.folderAt home)) := by
    obtain ⟨missing, hall⟩ := Workspace.makeFolderWithin_of_makeFolder hfound [holdout.folder]
    rw [hall]
    rw [Holdout.folderAt] at hitems ⊢
    simp [Workspace.makeFolders, holdout.folder_ne_parent, hitems, Except.mapError]
  obtain ⟨hplace, hopen⟩ | ⟨hlink, hopen⟩ | ⟨hplace, hnolink, hopen⟩ :=
    openWriter_of_makeFolder hmade
  · rw [hopen]
    exact .blocked (.file hplace)
  · rw [hopen]
    exact .blocked (.link hlink)
  · rw [hopen]
    refine .opened ?_ (opens_writeFile (.refl _ _) ⟨items, hitems⟩ hplace fun _ _ ↦ rfl) rfl
    intro error hblocks
    cases hblocks with
    | folder hitem hleaf => exact hleaf items (by simpa [hitem] using hitems)
    | file hblocked => exact hplace hblocked
    | link hlink => exact hnolink hlink

theorem openWriter_of_leaf {item : Item}
    (hitem : workspace.lookup (holdout.folderAt home) = .ok item)
    (hleaf : ∀ items, item ≠ .folder items) :
    store.openWriter workspace holdout = (workspace, .error
      ⟨.fileExists, Path.within store.directory [holdout.folder]⟩) := by
  obtain ⟨missing, hall⟩ := Workspace.makeFolderWithin_of_makeFolder hfound [holdout.folder]
  unfold openWriter
  rw [Holdout.folderAt] at hitem
  simp only [hall, Workspace.makeFolders, holdout.folder_ne_parent, hitem, if_false]
  cases item with
  | folder items => exact absurd rfl (hleaf items)
  | file file => rfl
  | link => rfl

theorem openWriter_of_missing
    (hmissing : workspace.lookup (holdout.folderAt home) = .error .notFound) :
    Attempt workspace store.directory home holdout
      (fun _ writer ↦ writer = ⟨holdout.place home, ""⟩) (store.openWriter workspace holdout) := by
  have hhome : workspace.IsFolder home := Workspace.isFolder_of_makeFolder hfound
  have hkeeps := hhome.keeps_set_folder hmissing
  have hmade : workspace.makeFolderWithin store.directory [holdout.folder] =
      (workspace.set (holdout.folderAt home) (.folder []), .ok (holdout.folderAt home)) := by
    obtain ⟨missing, hall⟩ := Workspace.makeFolderWithin_of_makeFolder hfound [holdout.folder]
    rw [hall]
    rw [Holdout.folderAt] at hmissing ⊢
    simp [Workspace.makeFolders, holdout.folder_ne_parent, hmissing, Except.mapError]
  -- the new folder is empty, so nothing stands in the way of the file
  have hempty : (workspace.set (holdout.folderAt home) (.folder [])).lookup (holdout.place home) =
      .error .notFound := by
    have hnew := hhome.lookup_set_below holdout.folder (.folder []) [fileName]
    simpa [Holdout.place, Holdout.folderAt, Item.lookup, Item.find?] using hnew
  obtain ⟨⟨items, hitems⟩, -⟩ | ⟨hlink, -⟩ | ⟨hplace, hnolink, hopen⟩ :=
    openWriter_of_makeFolder hmade
  · simp [hempty] at hitems
  · simp [hempty] at hlink
  · rw [hopen]
    refine .opened ?_ (opens_writeFile hkeeps ⟨[], hhome.lookup_set_self _ _⟩ hplace ?_) rfl
    · intro error hblocks
      cases hblocks with
      | folder hitem hleaf => simp [hmissing] at hitem
      | file hblocked => exact hplace (hkeeps.folder _ hblocked)
      | link hlink =>
        obtain ⟨items, hitems⟩ := Workspace.isFolder_of_lookup_append hlink
        simp [hmissing] at hitems
    · intro other hne
      apply Workspace.lookup_set_of_apart
      · exact Holdout.not_folderAt_prefix_place hne.symm
      · exact Holdout.not_place_prefix_folderAt

theorem openWriter_attempt (holdout : Holdout) :
    Attempt workspace store.directory home holdout
      (fun _ writer ↦ writer = ⟨holdout.place home, ""⟩) (store.openWriter workspace holdout) := by
  cases hitem : workspace.lookup (holdout.folderAt home) with
  | ok item =>
    by_cases hfolder : ∃ items, item = .folder items
    · obtain ⟨items, rfl⟩ := hfolder
      exact openWriter_of_isFolder hfound ⟨items, hitem⟩
    · have hleaf : ∀ items, item ≠ .folder items := fun items heq ↦ hfolder ⟨items, heq⟩
      rw [openWriter_of_leaf hfound hitem hleaf]
      exact .blocked (.folder hitem hleaf)
  | error fault =>
    have hhome : workspace.IsFolder home := Workspace.isFolder_of_makeFolder hfound
    obtain rfl := hhome.eq_notFound holdout.folder hitem
    exact openWriter_of_missing hfound hitem

end Opening

/-! ## Storing a line -/

/-- The lines that wait after one more for a partition. -/
def withLine (lines : Holdout → List String) (holdout : Holdout) (line : String) :
    Holdout → List String :=
  Function.update lines holdout (lines holdout ++ [line])

theorem withLine_ne_nil_iff (lines : Holdout → List String) (holdout other : Holdout)
    (line : String) :
    withLine lines holdout line other ≠ [] ↔ other = holdout ∨ lines other ≠ [] := by
  by_cases h : other = holdout
  · subst h
    simp [withLine]
  · simp [withLine, h]

theorem writer?_eq {opened : List Holdout} (h : store.writers = opened.map (writerOf home lines))
    (holdout : Holdout) :
    store.writer? holdout =
      if holdout ∈ opened then some ⟨holdout.place home, textOf (lines holdout)⟩ else none := by
  unfold writer?
  rw [h]
  clear h
  induction opened with
  | nil => rfl
  | cons known rest ih =>
    by_cases h : known = holdout
    · simp [writerOf, h]
    · simpa [writerOf, h, Ne.symm h] using ih

theorem addLine_map_writerOf (home : List String) (lines : Holdout → List String)
    {opened : List Holdout} (hnodup : opened.Nodup) (hmem : holdout ∈ opened) (line : String) :
    addLine line holdout (opened.map (writerOf home lines)) =
      opened.map (writerOf home (withLine lines holdout line)) := by
  induction opened with
  | nil => simp at hmem
  | cons known rest ih =>
    obtain ⟨hknown, hrest⟩ := List.nodup_cons.mp hnodup
    by_cases h : known = holdout
    · subst h
      have hsame : rest.map (writerOf home lines) =
          rest.map (writerOf home (withLine lines known line)) := by
        apply List.map_congr_left
        intro other hother
        have hne : other ≠ known := fun heq ↦ hknown (heq ▸ hother)
        simp [writerOf, withLine, hne]
      simpa [addLine, writerOf, withLine, textOf_concat] using hsame
    · have hmem : holdout ∈ rest := by simpa [Ne.symm h] using hmem
      simpa [addLine, writerOf, withLine, h] using ih hrest hmem

/-- A line for a partition whose writer stands among the others. -/
theorem serves_addLine {opened : List Holdout}
    (hfound : workspace.makeFolder store.directory = (workspace, .ok home)) (hnodup : opened.Nodup)
    (hmem : ∀ other, other ∈ opened ↔ other = holdout ∨ lines other ≠ [])
    (hfile : ∀ other ∈ opened, ∃ file, workspace.lookup (other.place home) = .ok (.file file))
    (line : String) :
    Serves { store with writers := addLine line holdout (opened.map (writerOf home lines)) }
      workspace
      home (withLine lines holdout line) where
  found := hfound
  writers := by
    refine ⟨opened, hnodup, fun other ↦ ?_, ?_⟩
    · rw [hmem, withLine_ne_nil_iff]
    · exact addLine_map_writerOf home lines hnodup ((hmem holdout).mpr (.inl rfl)) line
  file other hother := by
    rw [withLine_ne_nil_iff, ← hmem] at hother
    exact hfile other hother

/-- The store after a line: the same one, in use, with one more line waiting. -/
def HasStored (store : Store) (home : List String) (lines : Holdout → List String)
    (holdout : Holdout) (line : String) (made : Workspace) (after : Store) : Prop :=
  after.directory = store.directory ∧ after.options = store.options ∧
    after.Serves made home (withLine lines holdout line)

theorem Serves.storeLine_of_open (h : store.Serves workspace home lines)
    (hlines : lines holdout ≠ [])
    (line : String) :
    Attempt workspace store.directory home holdout (store.HasStored home lines holdout line)
      (store.storeLine workspace holdout line) := by
  obtain ⟨opened, hnodup, hmem, hwriters⟩ := h.writers
  have hopen : holdout ∈ opened := (hmem holdout).mpr hlines
  obtain ⟨file, hfile⟩ := h.file holdout hlines
  have hserves : Serves { store with writers := addLine line holdout store.writers } workspace home
      (withLine lines holdout line) := by
    rw [hwriters]
    apply serves_addLine h.found hnodup
    · intro other
      rw [hmem, iff_or_self]
      rintro rfl
      exact hlines
    · intro other hother
      exact h.file other ((hmem other).mp hother)
  rw [storeLine, writer?_eq hwriters, if_pos hopen]
  exact .opened (fun error ↦ not_blocks_of_file hfile)
    ⟨.refl _ _, ⟨file, hfile⟩, fun _ _ ↦ rfl⟩ ⟨rfl, rfl, hserves⟩

theorem Serves.storeLine_of_closed (h : store.Serves workspace home lines)
    (hlines : lines holdout = [])
    (line : String) :
    Attempt workspace store.directory home holdout (store.HasStored home lines holdout line)
      (store.storeLine workspace holdout line) := by
  obtain ⟨opened, hnodup, hmem, hwriters⟩ := h.writers
  have hclosed : holdout ∉ opened := by simpa [hmem] using hlines
  have hattempt := openWriter_attempt h.found holdout
  rw [storeLine, writer?_eq hwriters, if_neg hclosed]
  generalize store.openWriter workspace holdout = outcome at hattempt ⊢
  cases hattempt with
  | blocked hblocks => exact .blocked hblocks
  | @opened made writer hfree hopens hwriter =>
    have hadded : store.writers ++ [(holdout, writer)] =
        (opened ++ [holdout]).map (writerOf home lines) := by
      simp [hwriters, writerOf, hlines, hwriter]
    refine .opened hfree hopens ⟨rfl, rfl, ?_⟩
    rw [hadded]
    apply serves_addLine (Workspace.makeFolder_again h.found hopens.keeps)
    · simpa [List.nodup_append] using ⟨hnodup, fun other hother heq ↦ hclosed (heq ▸ hother)⟩
    · intro other
      simp [hmem, or_comm]
    · intro other hother
      by_cases heq : other = holdout
      · subst heq
        exact hopens.file
      · rw [hopens.other other heq]
        exact h.file other ((hmem other).mp (by simpa [heq] using hother))

/-- Storing a line does nothing at all when the partition is blocked, and otherwise adds to the
lines that wait. -/
theorem Serves.storeLine (h : store.Serves workspace home lines)
    (holdout : Holdout) (line : String) :
    Attempt workspace store.directory home holdout (store.HasStored home lines holdout line)
      (store.storeLine workspace holdout line) := by
  by_cases hlines : lines holdout = []
  · exact h.storeLine_of_closed hlines line
  · exact h.storeLine_of_open hlines line

theorem Serves.store_attempt (h : store.Serves workspace home lines) (holdout : Holdout)
    (label : String) (path : Option String) (tree : SyntaxTree) :
    Attempt workspace store.directory home holdout
      (store.HasStored home lines holdout (labeled store.options label path tree).line)
      (store.store workspace holdout label path tree) :=
  h.storeLine holdout (store.lineOf label path tree)

/-! ## Closing -/

/-- The files of some partitions hold the lines that waited, and nothing else has changed. -/
structure Writes (partitions : Set Holdout) (before after : Workspace) (home : List String)
    (lines : Holdout → List String) : Prop where
  keeps : Workspace.Keeps {place | ∃ holdout ∈ partitions, place = holdout.place home} before after
  file : ∀ holdout ∈ partitions, ∃ file, after.lookup (holdout.place home) = .ok (.file file) ∧
    file.content = Text.Utf8.encode (textOf (lines holdout))
  other : ∀ holdout ∉ partitions, after.lookup (holdout.place home) =
    before.lookup (holdout.place home)

/-- What is written later goes over what was written before. -/
theorem Writes.trans {first second : Set Holdout} {between after : Workspace}
    (h : Writes first workspace between home lines) (h' : Writes second between after home lines) :
    Writes (first ∪ second) workspace after home lines where
  keeps := by
    apply Workspace.Keeps.trans (h.keeps.mono _) (h'.keeps.mono _)
    · rintro place ⟨holdout, hmem, rfl⟩
      exact ⟨holdout, .inl hmem, rfl⟩
    · rintro place ⟨holdout, hmem, rfl⟩
      exact ⟨holdout, .inr hmem, rfl⟩
  file holdout hmem := by
    by_cases hsecond : holdout ∈ second
    · exact h'.file holdout hsecond
    · rw [h'.other holdout hsecond]
      exact h.file holdout (hmem.resolve_right hsecond)
  other holdout hmem := by
    rw [h'.other holdout fun hsecond ↦ hmem (.inr hsecond)]
    exact h.other holdout fun hfirst ↦ hmem (.inl hfirst)

theorem writes_writeFile {file : SourceFile}
    (hfile : workspace.lookup (holdout.place home) = .ok (.file file))
    (lines : Holdout → List String) :
    Writes {holdout} workspace
      (workspace.writeFile (holdout.place home) (Text.Utf8.encode (textOf (lines holdout)))) home
      lines := by
  have hfolder : workspace.IsFolder (holdout.folderAt home) :=
    Workspace.isFolder_of_lookup_append hfile
  have hplace : ¬ workspace.IsFolder (holdout.place home) := by
    rintro ⟨items, hitems⟩
    simp [hfile] at hitems
  refine ⟨?_, ?_, ?_⟩
  · apply (hfolder.keeps_writeFile hplace _).mono
    rintro place rfl
    exact ⟨holdout, rfl, rfl⟩
  · rintro other rfl
    exact hfolder.lookup_writeFile_self fileName _
  · intro other hne
    apply Workspace.lookup_writeFile_of_apart
    · exact Holdout.not_place_prefix_place (Ne.symm hne)
    · exact Holdout.not_place_prefix_place hne

theorem writes_foldl (lines : Holdout → List String) (opened : List Holdout)
    (hfile : ∀ holdout ∈ opened, ∃ file, workspace.lookup (holdout.place home) = .ok (.file file)) :
    Writes {holdout | holdout ∈ opened} workspace ((opened.map (writerOf home lines)).foldl
      (fun workspace row ↦
        workspace.writeFile row.2.names (Text.Utf8.encode row.2.pending)) workspace)
      home lines := by
  induction opened generalizing workspace with
  | nil => exact ⟨.refl _ _, by simp, by simp⟩
  | cons holdout rest ih =>
    obtain ⟨file, hholdout⟩ := hfile holdout List.mem_cons_self
    have hfirst := writes_writeFile hholdout lines
    have hset : {other | other ∈ holdout :: rest} = {holdout} ∪ {other | other ∈ rest} := by
      ext other
      simp
    rw [hset]
    apply hfirst.trans
    apply ih
    intro other hother
    by_cases h : other = holdout
    · obtain ⟨written, hwritten, -⟩ := hfirst.file other h
      exact ⟨written, hwritten⟩
    · rw [hfirst.other other h]
      exact hfile other (List.mem_cons_of_mem _ hother)

/-- Closing writes the waiting lines and leaves a store in use. -/
theorem Serves.close (h : store.Serves workspace home lines) :
    ∃ closed, store.close workspace = (closed, { store with writers := [] }) ∧
      Serves { store with writers := [] } closed home (fun _ ↦ []) ∧
      Writes {holdout | lines holdout ≠ []} workspace closed home lines := by
  obtain ⟨opened, -, hmem, hwriters⟩ := h.writers
  have hwrites := writes_foldl lines opened fun holdout hholdout ↦
    h.file holdout ((hmem holdout).mp hholdout)
  rw [← hwriters] at hwrites
  simp only [hmem] at hwrites
  exact ⟨_, rfl,
    ⟨Workspace.makeFolder_again h.found hwrites.keeps, ⟨[], by simp⟩, by simp⟩, hwrites⟩

end Store

end SyntaxMining.Dataset
