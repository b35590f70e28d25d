import SyntaxMining.Frontend
import SyntaxMining.Proofs.Workspace.Walk

/-!
# Eligible files

A search goes down from folder to folder and leaves out those that it passes over. What it lists can
be said by whole paths: the entries below the start that are no folders, with no folder strictly
between that is excluded by name or hidden, and with an extension that belongs to a language.
Neither the name of the start nor the order in which folders list their entries has a part in it.
The language of a listed file is the one that its absolute path shows.
-/

namespace SyntaxMining

namespace SearchOptions

variable {options : SearchOptions} {name folder language : String} {names folders : List String}

theorem passesOver_eq_false_iff :
    options.passesOver folder = false ↔
      folder ∉ options.excluded ∧ folder.toList.head? ≠ some '.' := by
  simp [passesOver]

theorem languageOf?_eq_some_iff :
    options.languageOf? name = some language ↔
      options.table.language? (Text.lower (Path.suffix name)) = some language ∧ language ≠ "" := by
  unfold languageOf?
  cases options.table.language? (Text.lower (Path.suffix name)) with
  | none => simp
  | some found =>
    by_cases hfound : found = ""
    · simp only [hfound, if_true, reduceCtorEq, Option.some.injEq, false_iff]
      rintro ⟨rfl, hne⟩
      exact hne rfl
    · simp only [hfound, if_false, Option.some.injEq]
      constructor
      · rintro rfl
        exact ⟨rfl, hfound⟩
      · exact fun h ↦ h.1

/-- Names that lead a search to a file of a language: the search enters all folders on the way. -/
structure Leads (options : SearchOptions) (names : List String) (language : String) : Prop where
  enters : ∀ folder ∈ names.dropLast, options.passesOver folder = false
  language_eq : options.languageOf? (names.getLastD "") = some language

theorem leads_singleton :
    options.Leads [name] language ↔ options.languageOf? name = some language := by
  constructor
  · intro h
    exact h.language_eq
  · intro h
    exact ⟨by simp, h⟩

theorem leads_cons (hne : names ≠ []) :
    options.Leads (name :: names) language ↔
      options.passesOver name = false ∧ options.Leads names language := by
  have hlast : (name :: names).getLastD "" = names.getLastD "" := by
    rw [List.getLastD_eq_getLast?, List.getLast?_cons_of_ne_nil hne, ← List.getLastD_eq_getLast?]
  constructor
  · intro h
    have henters := h.enters
    rw [List.dropLast_cons_of_ne_nil hne, List.forall_mem_cons] at henters
    exact ⟨henters.1, henters.2, hlast ▸ h.language_eq⟩
  · rintro ⟨hname, hnames⟩
    refine ⟨?_, hlast ▸ hnames.language_eq⟩
    rw [List.dropLast_cons_of_ne_nil hne, List.forall_mem_cons]
    exact ⟨hname, hnames.enters⟩

theorem leads_concat :
    options.Leads (folders ++ [name]) language ↔
      (∀ folder ∈ folders, options.passesOver folder = false) ∧
        options.languageOf? name = some language := by
  constructor
  · intro h
    exact ⟨by simpa using h.enters, by simpa using h.language_eq⟩
  · rintro ⟨henters, hlanguage⟩
    exact ⟨by simpa using henters, by simpa using hlanguage⟩

end SearchOptions

namespace Item

variable {item found : Item} {items : List (String × Item)} {name : String}
  {here rest : List String}

/-- Something other than a folder stands at names below an item. -/
def HasLeafAt (item : Item) (names : List String) : Prop :=
  ∃ leaf, item.lookup names = .ok leaf ∧ ∀ items, leaf ≠ .folder items

theorem hasLeafAt_nil : item.HasLeafAt [] ↔ ∀ items, item ≠ .folder items := by
  simp [HasLeafAt]

theorem hasLeafAt_cons :
    item.HasLeafAt (name :: rest) ↔
      ∃ items next, item = .folder items ∧ find? name items = some next ∧ next.HasLeafAt rest := by
  simp only [HasLeafAt, lookup_cons_eq_ok_iff]
  tauto

theorem hasLeafAt_append (h : item.lookup here = .ok found) :
    item.HasLeafAt (here ++ rest) ↔ found.HasLeafAt rest := by
  simp only [HasLeafAt, lookup_append h]

theorem HasLeafAt.ne_nil (h : (Item.folder items).HasLeafAt rest) : rest ≠ [] := by
  rintro rfl
  exact hasLeafAt_nil.mp h items rfl

/-- Below a folder, the way to a leaf leads through one of the entries. -/
theorem WellNamed.hasLeafAt_cons_iff (h : (Item.folder items).WellNamed) :
    (Item.folder items).HasLeafAt (name :: rest) ↔ ∃ next, (name, next) ∈ items ∧
      next.HasLeafAt rest := by
  rw [hasLeafAt_cons]
  constructor
  · rintro ⟨others, next, heq, hnext, hleaf⟩
    obtain rfl : items = others := by simpa using heq
    exact ⟨next, mem_of_find? hnext, hleaf⟩
  · rintro ⟨next, hmem, hleaf⟩
    exact ⟨items, next, rfl, find?_of_mem h.nodup hmem, hleaf⟩

end Item

namespace Workspace

variable {workspace : Workspace} {options : SearchOptions} {root : Path.Root}
  {names start : List String} {name path : String} {item : Item} {items : List (String × Item)}
  {found : FoundFile}

/-! ## What a search lists below an entry -/

theorem mem_foundFile_iff_leads (hleaf : ∀ items, item ≠ .folder items) :
    found ∈ foundFile options root names name ↔ found.root = root ∧
      ∃ rest, found.names = names ++ name :: rest ∧ item.HasLeafAt rest ∧
        options.Leads (name :: rest) found.language := by
  rw [mem_foundFile_iff]
  apply and_congr_right
  intro _
  constructor
  · rintro ⟨hnames, hlanguage⟩
    exact ⟨[], hnames, Item.hasLeafAt_nil.mpr hleaf, SearchOptions.leads_singleton.mpr hlanguage⟩
  · rintro ⟨rest, hnames, hrest, hleads⟩
    cases rest with
    | nil => exact ⟨hnames, SearchOptions.leads_singleton.mp hleads⟩
    | cons next rest =>
      obtain ⟨items, -, hfolder, -⟩ := Item.hasLeafAt_cons.mp hrest
      exact absurd hfolder (hleaf items)

/-- What is listed below the entries of a folder is listed below the folder. -/
theorem mem_sourcesOfAll_iff_of_entries (hnamed : (Item.folder items).WellNamed)
    (h : ∀ row ∈ items, (found ∈ sourcesOf options root names row.1 row.2 ↔ found.root = root ∧
      ∃ rest, found.names = names ++ row.1 :: rest ∧ row.2.HasLeafAt rest ∧
        options.Leads (row.1 :: rest) found.language)) :
    found ∈ sourcesOfAll options root names items ↔ found.root = root ∧
      ∃ rest, found.names = names ++ rest ∧ (Item.folder items).HasLeafAt rest ∧
        options.Leads rest found.language := by
  rw [sourcesOfAll_eq_flatMap, List.mem_flatMap]
  constructor
  · rintro ⟨row, hrow, hfound⟩
    obtain ⟨hroot, rest, hnames, hleaf, hleads⟩ := (h row hrow).mp hfound
    exact ⟨hroot, row.1 :: rest, hnames, hnamed.hasLeafAt_cons_iff.mpr ⟨row.2, hrow, hleaf⟩, hleads⟩
  · rintro ⟨hroot, rest, hnames, hleaf, hleads⟩
    cases rest with
    | nil => exact absurd rfl hleaf.ne_nil
    | cons name rest =>
      obtain ⟨next, hrow, hnext⟩ := hnamed.hasLeafAt_cons_iff.mp hleaf
      exact ⟨(name, next), hrow, (h _ hrow).mpr ⟨hroot, rest, hnames, hnext, hleads⟩⟩

/-- Below an entry, a search lists the files that it can be led to. -/
theorem mem_sourcesOf_iff (hnamed : item.WellNamed) :
    found ∈ sourcesOf options root names name item ↔ found.root = root ∧
      ∃ rest, found.names = names ++ name :: rest ∧ item.HasLeafAt rest ∧
        options.Leads (name :: rest) found.language := by
  induction item using Item.inductionOnItems generalizing names name with
  | file file =>
    rw [sourcesOf]
    exact mem_foundFile_iff_leads (by simp)
  | link =>
    rw [sourcesOf]
    exact mem_foundFile_iff_leads (by simp)
  | folder items ih =>
    rw [sourcesOf]
    split
    · next hpass =>
      constructor
      · intro h
        simp at h
      · rintro ⟨-, rest, -, hleaf, hleads⟩
        -- a folder that is passed over stands on no way to a file
        have henters := ((SearchOptions.leads_cons hleaf.ne_nil).mp hleads).1
        simp [hpass] at henters
    · next hpass =>
      rw [mem_sourcesOfAll_iff_of_entries hnamed fun row hrow ↦ ih row hrow (hnamed.of_mem hrow)]
      apply and_congr_right
      intro _
      constructor
      · rintro ⟨rest, hnames, hleaf, hleads⟩
        exact ⟨rest, by simpa using hnames, hleaf,
          (SearchOptions.leads_cons hleaf.ne_nil).mpr ⟨by simpa using hpass, hleads⟩⟩
      · rintro ⟨rest, hnames, hleaf, hleads⟩
        exact ⟨rest, by simpa using hnames, hleaf,
          ((SearchOptions.leads_cons hleaf.ne_nil).mp hleads).2⟩

/-! ## What a search lists below its start -/

/-- Something other than a folder stands at a place. -/
def HasLeafAt (workspace : Workspace) (names : List String) : Prop :=
  (Item.folder workspace.items).HasLeafAt names

/-- A file that a search from a path has to list. -/
structure Eligible (workspace : Workspace) (options : SearchOptions) (path : String)
    (file : FoundFile) : Prop where
  root_eq : file.root = Path.root path
  leaf : workspace.HasLeafAt file.names
  below : ∃ folders name, file.names = workspace.placeOf path ++ folders ++ [name] ∧
    (∀ folder ∈ folders, folder ∉ options.excluded ∧ folder.toList.head? ≠ some '.') ∧
    options.table.language? (Text.lower (Path.suffix name)) = some file.language ∧
    file.language ≠ ""

theorem eligible_iff : workspace.Eligible options path found ↔ found.root = Path.root path ∧
    workspace.HasLeafAt found.names ∧ ∃ rest, rest ≠ [] ∧
      found.names = workspace.placeOf path ++ rest ∧ options.Leads rest found.language := by
  constructor
  · rintro ⟨hroot, hleaf, folders, name, hnames, hfolders, hlanguage⟩
    refine ⟨hroot, hleaf, folders ++ [name], by simp, by simpa using hnames, ?_⟩
    rw [SearchOptions.leads_concat, SearchOptions.languageOf?_eq_some_iff]
    exact ⟨fun folder hfolder ↦ SearchOptions.passesOver_eq_false_iff.mpr (hfolders folder hfolder),
      hlanguage⟩
  · rintro ⟨hroot, hleaf, rest, hne, hnames, hleads⟩
    obtain ⟨folders, name, rfl⟩ := List.eq_nil_or_concat rest |>.resolve_left hne
    rw [List.concat_eq_append] at hnames hleads
    rw [SearchOptions.leads_concat, SearchOptions.languageOf?_eq_some_iff] at hleads
    refine ⟨hroot, hleaf, folders, name, by simpa using hnames, ?_, hleads.2⟩
    exact fun folder hfolder ↦ SearchOptions.passesOver_eq_false_iff.mp (hleads.1 folder hfolder)

/-- Files are eligible only below folders. -/
theorem Eligible.isFolder (h : workspace.Eligible options path found) :
    workspace.IsFolder (workspace.placeOf path) := by
  obtain ⟨-, ⟨leaf, hleaf, -⟩, rest, hne, hnames, -⟩ := eligible_iff.mp h
  obtain ⟨name, rest, rfl⟩ := List.exists_cons_of_ne_nil hne
  rw [hnames] at hleaf
  exact isFolder_of_lookup_append hleaf

theorem mem_sources_iff (hnamed : workspace.WellNamed) :
    found ∈ workspace.sources options path ↔ workspace.Eligible options path found := by
  unfold sources sourcesBelow
  split
  · next items hitems =>
    have hfolder := (hnamed.of_lookup hitems).1
    rw [List.mem_mergeSort, mem_sourcesOfAll_iff_of_entries hfolder
      fun row hrow ↦ mem_sourcesOf_iff (hfolder.of_mem hrow), eligible_iff]
    apply and_congr_right
    intro _
    constructor
    · rintro ⟨rest, hnames, hleaf, hleads⟩
      refine ⟨?_, rest, hleaf.ne_nil, hnames, hleads⟩
      rw [hnames]
      exact (Item.hasLeafAt_append hitems).mpr hleaf
    · rintro ⟨hleaf, rest, -, hnames, hleads⟩
      rw [hnames] at hleaf
      exact ⟨rest, hnames, (Item.hasLeafAt_append hitems).mp hleaf, hleads⟩
  · next hnone =>
    constructor
    · intro h
      simp at h
    · intro h
      obtain ⟨items, hitems⟩ := h.isFolder
      exact absurd hitems (hnone items)

/-- Where the same files stand, a search lists the same ones, however their folders list them. -/
theorem sources_eq_of_leaves {other : Workspace} (hnamed : workspace.WellNamed)
    (hother : other.WellNamed) (hcurrent : other.current = workspace.current)
    (hleaves : ∀ names, other.HasLeafAt names ↔ workspace.HasLeafAt names) :
    other.sources options path = workspace.sources options path := by
  have hplace : other.placeOf path = workspace.placeOf path := by
    rw [placeOf, placeOf, start, start, hcurrent]
  apply FoundFile.eq_of_increasing (sourcesBelow_increasing hother options _ _)
    (sourcesBelow_increasing hnamed options _ _)
  intro file
  rw [← sources, ← sources, mem_sources_iff hother, mem_sources_iff hnamed, eligible_iff,
    eligible_iff, hplace, hleaves]

/-- The path of a source file shows its language. -/
theorem IsSource.detect_path (h : workspace.IsSource options root found)
    (hnamed : workspace.WellNamed) {frontend : Frontend} (htable : frontend.table = options.table) :
    frontend.detect found.path = some found.language := by
  rw [Frontend.detect, h.name_path hnamed, htable]
  exact (SearchOptions.languageOf?_eq_some_iff.mp h.language).1

/-- A search lists exactly the eligible files, in strictly increasing order of their absolute paths,
and none when it does not start at a folder. Other listings of the same files change nothing, and
the path of a file leads to its place and shows its language. Absolute paths of proper names start
at their names, and relative ones at their names below the current directory. -/
theorem sources_lists_eligible (hnamed : workspace.WellNamed) (options : SearchOptions)
    (path : String) :
    let files := workspace.sources options path
    files.Pairwise (fun file later ↦ file.path < later.path) ∧
    (∀ file, file ∈ files ↔ workspace.Eligible options path file) ∧
    (¬workspace.IsFolder (workspace.placeOf path) → files = []) ∧
    (∀ other : Workspace, other.WellNamed → other.current = workspace.current →
      (∀ names, other.HasLeafAt names ↔ workspace.HasLeafAt names) →
      other.sources options path = files) ∧
    (∀ file ∈ files, workspace.placeOf file.path = file.names ∧
      ∀ frontend : Frontend, frontend.table = options.table →
        frontend.detect file.path = some file.language) ∧
    ∀ names, (∀ name ∈ names, Path.IsName name) →
      (∀ root, path = Path.absolute root names →
        Path.root path = root ∧ workspace.placeOf path = names) ∧
      (path = Path.relative names →
        Path.root path = .single ∧ workspace.placeOf path = workspace.current ++ names) := by
  intro files
  refine ⟨sourcesBelow_increasing hnamed options _ _, fun file ↦ mem_sources_iff hnamed,
    ?_, ?_, ?_, ?_⟩
  · intro hstart
    rw [List.eq_nil_iff_forall_not_mem]
    intro file hfile
    exact hstart ((mem_sources_iff hnamed).mp hfile).isFolder
  · intro other hother hcurrent hleaves
    exact sources_eq_of_leaves hnamed hother hcurrent hleaves
  · intro file hfile
    have hsource := isSource_of_mem_sourcesBelow hnamed hfile
    refine ⟨placeOf_absolute workspace file.root (hsource.isName hnamed), ?_⟩
    intro frontend htable
    exact hsource.detect_path hnamed htable
  · intro names hnames
    constructor
    · rintro root rfl
      exact ⟨Path.root_absolute root hnames, placeOf_absolute workspace root hnames⟩
    · rintro rfl
      exact ⟨Path.root_relative hnames, placeOf_relative workspace hnames⟩

/-- Hidden and excluded names, both of folders and of files. -/
def thicket : Workspace where
  current := ["w"]
  items := [("w", .folder [
    (".git", .folder [("a.py", .file ⟨[], .crash ""⟩)]),
    ("src", .folder [
      ("d.rs", .link),
      ("build", .folder [("c.py", .file ⟨[], .crash ""⟩)]),
      (".b.PY", .file ⟨[], .crash ""⟩)])])]

/-- An excluded folder hides its files, while a hidden file is listed, and so is what stands in the
hidden folder where the search starts. -/
theorem sources_lists_eligible_thicket :
    thicket.WellNamed ∧
      ⟨.single, ["w", "src", ".b.PY"], "python"⟩ ∈ thicket.sources {} "/w/src" ∧
      ⟨.single, ["w", "src", "d.rs"], "rust"⟩ ∈ thicket.sources {} "/w/src" ∧
      ⟨.single, ["w", "src", "build", "c.py"], "python"⟩ ∉ thicket.sources {} "/w/src" ∧
      ⟨.single, ["w", ".git", "a.py"], "python"⟩ ∈ thicket.sources {} ".git" := by
  have hnamed : thicket.WellNamed := by
    have hbuild : (Item.folder [("c.py", .file ⟨[], .crash ""⟩)]).WellNamed :=
      .folder (by decide) (by decide) (by simp [Item.WellNamed.file])
    have hgit : (Item.folder [("a.py", .file ⟨[], .crash ""⟩)]).WellNamed :=
      .folder (by decide) (by decide) (by simp [Item.WellNamed.file])
    have hsrc : (Item.folder [("d.rs", .link), ("build", .folder [("c.py", .file ⟨[], .crash ""⟩)]),
        (".b.PY", .file ⟨[], .crash ""⟩)]).WellNamed :=
      .folder (by decide) (by decide) (by simp [Item.WellNamed.file, Item.WellNamed.link, hbuild])
    refine .folder (by decide) (by decide) (List.forall_mem_singleton.mpr ?_)
    exact .folder (by decide) (by decide) (by simp [hgit, hsrc])
  obtain ⟨-, hsrc, -, -, -, hplaces⟩ := sources_lists_eligible hnamed {} "/w/src"
  obtain ⟨-, hgit, -, -, -, hplacesGit⟩ := sources_lists_eligible hnamed {} ".git"
  obtain ⟨hroot, hplace⟩ := (hplaces ["w", "src"] (by decide)).1 .single (by decide)
  obtain ⟨hrootGit, hplaceGit⟩ := (hplacesGit [".git"] (by decide)).2 (by decide)
  have hplaceGit : thicket.placeOf ".git" = ["w", ".git"] := hplaceGit
  refine ⟨hnamed, (hsrc _).mpr ?_, (hsrc _).mpr ?_, ?_, (hgit _).mpr ?_⟩
  · exact ⟨hroot.symm, ⟨_, rfl, by simp⟩, [], ".b.PY", by simp [hplace], by simp, by decide +kernel,
      by decide⟩
  · exact ⟨hroot.symm, ⟨_, rfl, by simp⟩, [], "d.rs", by simp [hplace], by simp, by decide +kernel,
      by decide⟩
  · rw [hsrc]
    rintro ⟨-, -, folders, name, hnames, hfolders, -⟩
    have hbelow : ["build"] ++ ["c.py"] = folders ++ [name] := by simpa [hplace] using hnames
    obtain ⟨rfl, -⟩ := List.append_inj' hbelow rfl
    exact (hfolders "build" (by simp)).1 (by decide)
  · exact ⟨hrootGit.symm, ⟨_, rfl, by simp⟩, [], "a.py", by simp [hplaceGit], by simp,
      by decide +kernel, by decide⟩

end Workspace

end SyntaxMining
