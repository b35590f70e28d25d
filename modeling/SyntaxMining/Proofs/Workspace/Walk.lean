import SyntaxMining.Proofs.Workspace.Path
import SyntaxMining.Workspace.Walk

/-!
# Files that a search finds

In a workspace whose entries have proper names, no two places share an absolute path. A search
therefore lists its files in strictly increasing order of their absolute paths; each is a file, or a
link that counts as one, of a known language.
-/

namespace SyntaxMining

/-! ## Proper names -/

namespace Item

@[elab_as_elim]
theorem inductionOnItems {motive : Item → Prop} (file : ∀ file, motive (.file file))
    (link : motive .link)
    (folder : ∀ items, (∀ row ∈ items, motive row.2) → motive (.folder items)) :
    ∀ item, motive item
  | .file found => file found
  | .link => link
  | .folder items => folder items fun (_, item) h ↦
    have : sizeOf item < sizeOf items := by
      have hrow := List.sizeOf_lt_of_mem h
      simp only [Prod.mk.sizeOf_spec] at hrow
      omega
    inductionOnItems file link folder item

/-- Folders hold entries with distinct proper names. -/
inductive WellNamed : Item → Prop where
  | file (file : SourceFile) : WellNamed (.file file)
  | link : WellNamed .link
  | folder {items : List (String × Item)} : (items.map Prod.fst).Nodup →
      (∀ row ∈ items, Path.IsName row.1) → (∀ row ∈ items, WellNamed row.2) →
      WellNamed (.folder items)

theorem find?_of_mem {items : List (String × Item)} (hnodup : (items.map Prod.fst).Nodup)
    {row : String × Item} (h : row ∈ items) : find? row.1 items = some row.2 := by
  induction items with
  | nil => simp at h
  | cons first rest ih =>
    rw [List.map_cons, List.nodup_cons] at hnodup
    rcases List.mem_cons.mp h with rfl | h
    · simp [find?]
    · have hne : first.1 ≠ row.1 := by
        intro heq
        exact hnodup.1 (heq ▸ List.mem_map_of_mem h)
      simpa [find?, hne] using ih hnodup.2 h

theorem mem_of_find? {items : List (String × Item)} {name : String} {item : Item}
    (h : find? name items = some item) : (name, item) ∈ items := by
  induction items with
  | nil => simp [find?] at h
  | cons first rest ih =>
    rw [find?] at h
    split at h
    · next heq =>
      obtain rfl : first.2 = item := by simpa using h
      simp [← heq]
    · exact List.mem_cons_of_mem first (ih h)

theorem WellNamed.nodup {items : List (String × Item)} (h : (Item.folder items).WellNamed) :
    (items.map Prod.fst).Nodup := by
  cases h with
  | folder hnodup hnames hitems => exact hnodup

theorem WellNamed.of_mem {items : List (String × Item)} (h : (Item.folder items).WellNamed)
    {row : String × Item} (hrow : row ∈ items) : row.2.WellNamed := by
  cases h with
  | folder hnodup hnames hitems => exact hitems row hrow

/-- Each entry of a folder is found under its name. -/
theorem WellNamed.lookup_below {items : List (String × Item)} (h : (Item.folder items).WellNamed)
    {item : Item} {names : List String} (hitems : item.lookup names = .ok (.folder items))
    {row : String × Item} (hrow : row ∈ items) : item.lookup (names ++ [row.1]) = .ok row.2 := by
  rw [lookup_append hitems, lookup, find?_of_mem h.nodup hrow]
  exact lookup_nil row.2

theorem WellNamed.of_lookup {item found : Item} (h : item.WellNamed) {names : List String}
    (hfound : item.lookup names = .ok found) :
    found.WellNamed ∧ ∀ name ∈ names, Path.IsName name := by
  induction names generalizing item with
  | nil =>
    obtain rfl : item = found := by simpa using hfound
    exact ⟨h, by simp⟩
  | cons name rest ih =>
    obtain ⟨items, next, rfl, hnext, hrest⟩ := lookup_cons_eq_ok_iff.mp hfound
    cases h with
    | folder hnodup hnames hitems =>
      have hmem := mem_of_find? hnext
      obtain ⟨hfound, hproper⟩ := ih (hitems _ hmem) hrest
      refine ⟨hfound, fun other hother ↦ ?_⟩
      rcases List.mem_cons.mp hother with rfl | hother
      · exact hnames _ hmem
      · exact hproper other hother

end Item

/-- Lists of files in the order of their paths are equal when they hold the same files. -/
theorem FoundFile.eq_of_increasing {files others : List FoundFile}
    (h : files.Pairwise fun file later ↦ file.path < later.path)
    (h' : others.Pairwise fun file later ↦ file.path < later.path)
    (hmem : ∀ file, file ∈ files ↔ file ∈ others) : files = others := by
  have hnodup (list : List FoundFile)
      (hlist : list.Pairwise fun file later ↦ file.path < later.path) : list.Nodup := by
    apply hlist.imp
    rintro file later hlt rfl
    exact String.lt_irrefl _ hlt
  have hperm : files.Perm others := (List.perm_ext_iff_of_nodup (hnodup _ h) (hnodup _ h')).mpr hmem
  apply hperm.eq_of_pairwise _ h h'
  intro file later _ _ hlt hgt
  exact absurd hgt (String.lt_asymm hlt)

namespace Workspace

/-- All entries have proper names, distinct in each folder. -/
def WellNamed (workspace : Workspace) : Prop :=
  (Item.folder workspace.items).WellNamed

variable {workspace : Workspace} {names : List String}

/-! ## Searching -/

variable {options : SearchOptions} {root : Path.Root} {name : String} {item : Item}
  {found : FoundFile}

/-- What a search may list: a file or a link of a known language. -/
structure IsSource (workspace : Workspace) (options : SearchOptions) (root : Path.Root)
    (file : FoundFile) : Prop where
  root_eq : file.root = root
  leaf : ∃ item, workspace.lookup file.names = .ok item ∧ ∀ items, item ≠ .folder items
  language : options.languageOf? (file.names.getLastD "") = some file.language

theorem sourcesOfAll_eq_flatMap (options : SearchOptions) (root : Path.Root) (names : List String)
    (rows : List (String × Item)) :
    sourcesOfAll options root names rows =
      rows.flatMap fun row ↦ sourcesOf options root names row.1 row.2 := by
  induction rows with
  | nil => simp [sourcesOfAll]
  | cons row rest ih => simp [sourcesOfAll, ih]

theorem mem_foundFile_iff :
    found ∈ foundFile options root names name ↔ found.root = root ∧
      found.names = names ++ [name] ∧ options.languageOf? name = some found.language := by
  unfold foundFile
  obtain ⟨start, place, language⟩ := found
  cases options.languageOf? name <;> simp [eq_comm]

/-- A search stays below the entry where it starts. -/
theorem below_of_mem_sourcesOf (h : found ∈ sourcesOf options root names name item) :
    names ++ [name] <+: found.names := by
  induction item using Item.inductionOnItems generalizing names name with
  | file file =>
    rw [sourcesOf, mem_foundFile_iff] at h
    rw [h.2.1]
  | link =>
    rw [sourcesOf, mem_foundFile_iff] at h
    rw [h.2.1]
  | folder items ih =>
    rw [sourcesOf] at h
    split at h
    · simp at h
    · rw [sourcesOfAll_eq_flatMap, List.mem_flatMap] at h
      obtain ⟨row, hrow, h⟩ := h
      exact (List.prefix_append _ _).trans (ih row hrow h)

theorem isSource_of_mem_foundFile (hitem : workspace.lookup (names ++ [name]) = .ok item)
    (hleaf : ∀ items, item ≠ .folder items) (h : found ∈ foundFile options root names name) :
    workspace.IsSource options root found := by
  obtain ⟨hroot, hnames, hlanguage⟩ := mem_foundFile_iff.mp h
  exact ⟨hroot, ⟨item, hnames ▸ hitem, hleaf⟩, by simpa [hnames] using hlanguage⟩

theorem isSource_of_mem_sourcesOf (hnamed : item.WellNamed)
    (hitem : workspace.lookup (names ++ [name]) = .ok item)
    (h : found ∈ sourcesOf options root names name item) :
    workspace.IsSource options root found := by
  induction item using Item.inductionOnItems generalizing names name with
  | file file => exact isSource_of_mem_foundFile hitem (by simp) (by simpa [sourcesOf] using h)
  | link => exact isSource_of_mem_foundFile hitem (by simp) (by simpa [sourcesOf] using h)
  | folder items ih =>
    rw [sourcesOf] at h
    split at h
    · simp at h
    · rw [sourcesOfAll_eq_flatMap, List.mem_flatMap] at h
      obtain ⟨row, hrow, h⟩ := h
      exact ih row hrow (hnamed.of_mem hrow) (hnamed.lookup_below hitem hrow) h

/-- Entries of distinct names lead a search to distinct places. -/
theorem sourcesOfAll_pairwise_ne {rows : List (String × Item)} (hnodup : (rows.map Prod.fst).Nodup)
    (h : ∀ row ∈ rows, (sourcesOf options root names row.1 row.2).Pairwise (·.names ≠ ·.names)) :
    (sourcesOfAll options root names rows).Pairwise (·.names ≠ ·.names) := by
  rw [sourcesOfAll_eq_flatMap, List.pairwise_flatMap]
  refine ⟨h, (List.pairwise_map.mp hnodup).imp ?_⟩
  intro row other hne file hfile later hlater heq
  obtain ⟨rest, hrest⟩ := below_of_mem_sourcesOf hfile
  obtain ⟨rest', hrest'⟩ := below_of_mem_sourcesOf hlater
  rw [heq, ← hrest'] at hrest
  simp only [List.append_assoc, List.append_cancel_left_eq, List.cons_append, List.nil_append,
    List.cons.injEq] at hrest
  exact hne hrest.1

theorem sourcesOf_pairwise_ne (hnamed : item.WellNamed) :
    (sourcesOf options root names name item).Pairwise (·.names ≠ ·.names) := by
  induction item using Item.inductionOnItems generalizing names name with
  | file file =>
    rw [sourcesOf, foundFile]
    split <;> simp
  | link =>
    rw [sourcesOf, foundFile]
    split <;> simp
  | folder items ih =>
    rw [sourcesOf]
    split
    · simp
    · apply sourcesOfAll_pairwise_ne hnamed.nodup
      intro row hrow
      exact ih row hrow (hnamed.of_mem hrow)

theorem isSource_of_mem_sourcesBelow (hnamed : workspace.WellNamed)
    (h : found ∈ workspace.sourcesBelow options root names) :
    workspace.IsSource options root found := by
  unfold sourcesBelow at h
  split at h
  · next items hitems =>
    have hfolder := (hnamed.of_lookup hitems).1
    rw [List.mem_mergeSort, sourcesOfAll_eq_flatMap, List.mem_flatMap] at h
    obtain ⟨row, hrow, h⟩ := h
    exact isSource_of_mem_sourcesOf (hfolder.of_mem hrow) (hfolder.lookup_below hitems hrow) h
  · simp at h

theorem IsSource.isName (h : workspace.IsSource options root found) (hnamed : workspace.WellNamed) :
    ∀ name ∈ found.names, Path.IsName name := by
  obtain ⟨item, hitem, -⟩ := h.leaf
  exact (hnamed.of_lookup hitem).2

/-- The path of a source file ends with the file's own name. -/
theorem IsSource.name_path (h : workspace.IsSource options root found)
    (hnamed : workspace.WellNamed) : Path.name found.path = found.names.getLastD "" := by
  rw [FoundFile.path, Path.name_absolute _ (h.isName hnamed)]

/-- Different source files have different paths. -/
theorem IsSource.path_ne {later : FoundFile} (h : workspace.IsSource options root found)
    (h' : workspace.IsSource options root later) (hnamed : workspace.WellNamed)
    (hne : found.names ≠ later.names) : found.path ≠ later.path := by
  intro heq
  rw [FoundFile.path, FoundFile.path, h.root_eq, h'.root_eq] at heq
  exact hne (Path.absolute_injective root (h.isName hnamed) (h'.isName hnamed) heq)

/-- A search lists its files in strictly increasing order of their absolute paths. -/
theorem sourcesBelow_increasing (hnamed : workspace.WellNamed) (options : SearchOptions)
    (root : Path.Root) (names : List String) :
    (workspace.sourcesBelow options root names).Pairwise
      fun file later ↦ file.path < later.path := by
  have hsource (found : FoundFile) (h : found ∈ workspace.sourcesBelow options root names) :=
    isSource_of_mem_sourcesBelow hnamed h
  unfold sourcesBelow at hsource ⊢
  split
  · next items hitems =>
    rw [hitems] at hsource
    let le (left right : FoundFile) : Bool := !(right.path < left.path)
    have hle_iff (left right : FoundFile) : le left right ↔ left.path ≤ right.path := by
      simp only [le, Bool.not_eq_true', decide_eq_false_iff_not, String.not_lt]
    have hfolder := (hnamed.of_lookup hitems).1
    have hne : ((sourcesOfAll options root names items).mergeSort le).Pairwise
        (·.names ≠ ·.names) := by
      rw [(List.mergeSort_perm _ _).pairwise_iff fun h ↦ Ne.symm h]
      apply sourcesOfAll_pairwise_ne hfolder.nodup
      intro row hrow
      exact sourcesOf_pairwise_ne (hfolder.of_mem hrow)
    have hle : ((sourcesOfAll options root names items).mergeSort le).Pairwise (le · ·) := by
      apply List.pairwise_mergeSort
      · intro first second third
        simp only [hle_iff]
        exact String.le_trans
      · intro first second
        simp only [Bool.or_eq_true, hle_iff]
        exact String.le_total _ _
    -- paths that are ordered and belong to different places differ
    refine (hle.and hne).imp_of_mem ?_
    intro file later hfile hlater hpair
    obtain ⟨hle, hne⟩ := hpair
    rw [hle_iff] at hle
    by_contra hlt
    have heq := String.le_antisymm hle (String.not_lt.mp hlt)
    exact (hsource file hfile).path_ne (hsource later hlater) hnamed hne heq
  · exact .nil

end Workspace

end SyntaxMining
