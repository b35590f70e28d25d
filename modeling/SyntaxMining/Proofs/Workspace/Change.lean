import Mathlib.Data.Set.Insert
import Mathlib.Data.List.Infix
import SyntaxMining.Workspace.Basic

/-!
# What changes leave alone

A workspace is known by what is found at its places. Setting an item shows at its own place and
below, and leaves every place apart from it as it was. Making folders therefore changes no file, and
making the same folders again changes nothing at all.
-/

namespace SyntaxMining

namespace Item

variable {item found new : Item} {name other : String} {names here rest : List String}

@[simp] theorem find?_put_self (name : String) (item : Item) (items : List (String × Item)) :
    find? name (put name item items) = some item := by
  induction items with
  | nil => simp [put, find?]
  | cons row rest ih =>
    by_cases h : row.1 = name
    · simp [put, find?, h]
    · simp [put, find?, h, ih]

theorem find?_put_of_ne (h : name ≠ other) (item : Item) (items : List (String × Item)) :
    find? other (put name item items) = find? other items := by
  induction items with
  | nil => simp [put, find?, h]
  | cons row rest ih =>
    by_cases hrow : row.1 = name
    · simp [put, find?, hrow, h]
    · simp [put, find?, hrow, ih]

@[simp] theorem lookup_nil (item : Item) : item.lookup [] = .ok item := by
  rw [lookup.eq_def]

theorem lookup_cons_eq_ok_iff :
    item.lookup (name :: rest) = .ok found ↔
      ∃ items next, item = .folder items ∧ find? name items = some next ∧
        next.lookup rest = .ok found := by
  cases item with
  | file file => simp [lookup]
  | link => simp [lookup]
  | folder items =>
    rw [lookup]
    cases h : find? name items <;> simp [h]

theorem lookup_append_eq_ok_iff :
    item.lookup (here ++ rest) = .ok found ↔
      ∃ next, item.lookup here = .ok next ∧ next.lookup rest = .ok found := by
  induction here generalizing item with
  | nil => simp
  | cons name here ih =>
    simp only [List.cons_append, lookup_cons_eq_ok_iff, ih]
    grind

theorem lookup_append (h : item.lookup here = .ok found) (rest : List String) :
    item.lookup (here ++ rest) = found.lookup rest := by
  induction here generalizing item with
  | nil => simp_all
  | cons name here ih =>
    obtain ⟨items, next, rfl, hnext, h⟩ := lookup_cons_eq_ok_iff.mp h
    rw [List.cons_append, lookup, hnext]
    exact ih h

theorem set_append (h : item.lookup here = .ok found) (rest : List String) (new : Item) :
    item.set (here ++ rest) new = item.set here (found.set rest new) := by
  induction here generalizing item with
  | nil => simp_all [set]
  | cons name here ih =>
    obtain ⟨items, next, rfl, hnext, h⟩ := lookup_cons_eq_ok_iff.mp h
    simp only [List.cons_append, set, hnext, Option.getD_some, ih h]

theorem lookup_set_append (h : item.lookup here = .ok found) (new : Item) (rest : List String) :
    (item.set here new).lookup (here ++ rest) = new.lookup rest := by
  induction here generalizing item with
  | nil => simp [set]
  | cons name here ih =>
    obtain ⟨items, next, rfl, hnext, h⟩ := lookup_cons_eq_ok_iff.mp h
    simp only [List.cons_append, set, lookup, find?_put_self, hnext, Option.getD_some, ih h]

theorem lookup_set_of_apart (hbelow : ¬ names <+: here) (habove : ¬ here <+: names) (new : Item) :
    (item.set names new).lookup here = item.lookup here := by
  induction names generalizing item here with
  | nil => exact absurd List.nil_prefix hbelow
  | cons name names ih =>
    cases here with
    | nil => exact absurd List.nil_prefix habove
    | cons other here =>
      cases item with
      | file file => rw [set]
      | link => rw [set]
      | folder items =>
        rw [set, lookup, lookup]
        by_cases h : name = other
        · subst h
          simp only [List.prefix_cons_inj] at hbelow habove
          rw [find?_put_self]
          dsimp only
          rw [ih hbelow habove]
          cases hfound : find? name items with
          | some next => rfl
          | none =>
            -- The folder that is made on the way is empty.
            cases here with
            | nil => exact absurd List.nil_prefix habove
            | cons => rfl
        · rw [find?_put_of_ne h]

end Item

namespace Workspace

variable {workspace made : Workspace} {names here home rest other parts : List String}
  {name : String}
  {item : Item}

/-! ## Folders -/

/-- There is a folder at a place. -/
def IsFolder (workspace : Workspace) (names : List String) : Prop :=
  ∃ items, workspace.lookup names = .ok (.folder items)

theorem isFolder_nil (workspace : Workspace) : workspace.IsFolder [] :=
  ⟨workspace.items, Item.lookup_nil _⟩

theorem isFolder_of_lookup_append (h : workspace.lookup (here ++ name :: rest) = .ok item) :
    workspace.IsFolder here := by
  obtain ⟨next, hnext, h⟩ := Item.lookup_append_eq_ok_iff.mp h
  obtain ⟨items, -, rfl, -⟩ := Item.lookup_cons_eq_ok_iff.mp h
  exact ⟨items, hnext⟩

/-- Nothing lies below what is no folder. -/
theorem lookup_below_ne_ok {found : Item} (h : workspace.lookup here = .ok item)
    (hleaf : ∀ items, item ≠ .folder items) :
    workspace.lookup (here ++ name :: rest) ≠ .ok found := by
  intro hfound
  obtain ⟨items, hitems⟩ := isFolder_of_lookup_append hfound
  exact hleaf items (by simpa [h] using hitems)

theorem not_isFolder_below (h : workspace.lookup here = .ok item)
    (hleaf : ∀ items, item ≠ .folder items) : ¬ workspace.IsFolder (here ++ name :: rest) :=
  fun ⟨_, hitems⟩ ↦ lookup_below_ne_ok h hleaf hitems

theorem IsFolder.above (h : workspace.IsFolder names) (hle : here <+: names) :
    workspace.IsFolder here := by
  obtain ⟨rest, rfl⟩ := hle
  cases rest with
  | nil => simpa using h
  | cons name rest =>
    obtain ⟨items, h⟩ := h
    exact isFolder_of_lookup_append h

theorem IsFolder.dropLast (h : workspace.IsFolder names) : workspace.IsFolder names.dropLast :=
  h.above <| List.dropLast_prefix names

/-- One step below a folder, only absence is a failure. -/
theorem IsFolder.eq_notFound (h : workspace.IsFolder here) (name : String)
    {fault : FileFault} (hfault : workspace.lookup (here ++ [name]) = .error fault) :
    fault = .notFound := by
  obtain ⟨items, h⟩ := h
  rw [lookup, Item.lookup_append h, Item.lookup] at hfault
  cases hfound : Item.find? name items <;> simp_all

/-! ## Setting one item -/

theorem lookup_set (h : names ≠ []) (item : Item) (other : List String) :
    (workspace.set names item).lookup other =
      ((Item.folder workspace.items).set names item).lookup other := by
  cases names with
  | nil => exact absurd rfl h
  | cons name rest => rfl

@[simp] theorem current_set (workspace : Workspace) (names : List String) (item : Item) :
    (workspace.set names item).current = workspace.current := by
  cases names <;> rfl

theorem IsFolder.lookup_set_below (h : workspace.IsFolder here) (name : String) (item : Item)
    (rest : List String) :
    (workspace.set (here ++ [name]) item).lookup (here ++ name :: rest) = item.lookup rest := by
  obtain ⟨items, h⟩ := h
  rw [lookup_set (by simp), Item.set_append h, Item.lookup_set_append h]
  simp [Item.set, Item.lookup]

theorem IsFolder.lookup_set_self (h : workspace.IsFolder here) (name : String) (item : Item) :
    (workspace.set (here ++ [name]) item).lookup (here ++ [name]) = .ok item := by
  simpa using h.lookup_set_below name item []

theorem lookup_set_of_apart (hbelow : ¬ names <+: other)
    (habove : ¬ other <+: names) (item : Item) :
    (workspace.set names item).lookup other = workspace.lookup other := by
  rw [lookup_set (by rintro rfl; exact hbelow List.nil_prefix)]
  exact Item.lookup_set_of_apart hbelow habove item

theorem IsFolder.set (h : workspace.IsFolder other) (hhere : workspace.IsFolder here)
    (hbelow : ¬ here ++ [name] <+: other) (item : Item) :
    (workspace.set (here ++ [name]) item).IsFolder other := by
  by_cases habove : other <+: here ++ [name]
  · -- The folder lies on the way to the new item, which shows inside it.
    have hne : other ≠ here ++ [name] := by
      rintro rfl
      exact hbelow (List.prefix_refl _)
    have hother : other <+: here := by
      simpa [List.prefix_concat_iff, hne] using habove
    obtain ⟨items, hhere⟩ := hhere
    have hset : (workspace.set (here ++ [name]) item).lookup here =
        .ok ((Item.folder items).set [name] item) := by
      rw [lookup_set (by simp), Item.set_append hhere]
      simpa using Item.lookup_set_append hhere ((Item.folder items).set [name] item) []
    rw [Item.set] at hset
    exact IsFolder.above ⟨_, hset⟩ hother
  · obtain ⟨items, h⟩ := h
    exact ⟨items, by rw [lookup_set_of_apart hbelow habove, h]⟩

/-! ## Changes at some places only -/

/-- Outside some places, no file or link appears, changes or disappears, and folders stay folders
everywhere. -/
structure Keeps (places : Set (List String)) (before after : Workspace) : Prop where
  current : after.current = before.current
  folder : ∀ names, before.IsFolder names → after.IsFolder names
  leaf : ∀ names ∉ places, ∀ item, (∀ items, item ≠ .folder items) →
    (after.lookup names = .ok item ↔ before.lookup names = .ok item)

namespace Keeps

variable {places : Set (List String)} {before between after : Workspace}

theorem refl (places : Set (List String)) (workspace : Workspace) :
    Keeps places workspace workspace :=
  ⟨rfl, fun _ h ↦ h, fun _ _ _ _ ↦ Iff.rfl⟩

theorem trans (h : Keeps places before between) (h' : Keeps places between after) :
    Keeps places before after where
  current := h'.current.trans h.current
  folder names hnames := h'.folder names (h.folder names hnames)
  leaf names hnames item hitem :=
    (h'.leaf names hnames item hitem).trans (h.leaf names hnames item hitem)

theorem mono {more : Set (List String)} (h : Keeps places before after) (hsub : places ⊆ more) :
    Keeps more before after :=
  ⟨h.current, h.folder, fun names hnames ↦ h.leaf names fun hmem ↦ hnames (hsub hmem)⟩

theorem lookup_eq (h : Keeps places before after) (hnames : names ∉ places)
    (hitem : before.lookup names = .ok item) (hleaf : ∀ items, item ≠ .folder items) :
    after.lookup names = before.lookup names := by
  rw [hitem, h.leaf names hnames item hleaf, hitem]

theorem start_eq (h : Keeps places before after) (path : String) :
    after.start path = before.start path := by
  rw [start, start, h.current]

end Keeps

/-- Setting an item with nothing in it, where no folder was, changes that place only. -/
theorem IsFolder.keeps_set (hhere : workspace.IsFolder here)
    (hold : ¬ workspace.IsFolder (here ++ [name]))
    (hitem : ∀ step rest found, item.lookup (step :: rest) ≠ .ok found) :
    Keeps {here ++ [name]} workspace (workspace.set (here ++ [name]) item) where
  current := current_set _ _ _
  folder names hnames := hnames.set hhere (fun hbelow ↦ hold (hnames.above hbelow)) item
  leaf names hne leaf hleaf := by
    by_cases hbelow : here ++ [name] <+: names
    · -- Below the place there was nothing, and there is nothing.
      obtain ⟨rest, rfl⟩ := hbelow
      cases rest with
      | nil => exact absurd (by simp) hne
      | cons step rest =>
        have hbefore : workspace.lookup (here ++ [name] ++ step :: rest) ≠ .ok leaf :=
          fun h ↦ hold (isFolder_of_lookup_append h)
        have hafter := hhere.lookup_set_below name item (step :: rest)
        simp only [List.append_assoc, List.singleton_append] at hbefore ⊢
        simp [hbefore, hafter, hitem]
    · by_cases habove : names <+: here ++ [name]
      · have hne : names ≠ here ++ [name] := hne
        have hnames : names <+: here := by
          simpa [List.prefix_concat_iff, hne] using habove
        obtain ⟨items, hbefore⟩ := hhere.above hnames
        obtain ⟨items', hafter⟩ := IsFolder.set ⟨items, hbefore⟩ hhere hbelow item
        simp [hbefore, hafter, (hleaf items).symm, (hleaf items').symm]
      · rw [lookup_set_of_apart hbelow habove]

/-! ## Writing files -/

theorem exists_writeFile_eq_set (workspace : Workspace) (names : List String)
    (content : List UInt8) :
    ∃ file : SourceFile, file.content = content ∧
      workspace.writeFile names content = workspace.set names (.file file) := by
  rw [writeFile]
  split
  · exact ⟨_, rfl, rfl⟩
  · exact ⟨_, rfl, rfl⟩

theorem IsFolder.lookup_writeFile_self (h : workspace.IsFolder here) (name : String)
    (content : List UInt8) :
    ∃ file,
      (workspace.writeFile (here ++ [name]) content).lookup (here ++ [name]) = .ok (.file file) ∧
      file.content = content := by
  obtain ⟨file, hcontent, hset⟩ := workspace.exists_writeFile_eq_set (here ++ [name]) content
  exact ⟨file, by rw [hset, h.lookup_set_self], hcontent⟩

theorem lookup_writeFile_of_apart (hbelow : ¬ names <+: other) (habove : ¬ other <+: names)
    (content : List UInt8) :
    (workspace.writeFile names content).lookup other = workspace.lookup other := by
  obtain ⟨file, -, hset⟩ := workspace.exists_writeFile_eq_set names content
  rw [hset, lookup_set_of_apart hbelow habove]

theorem IsFolder.keeps_writeFile (h : workspace.IsFolder here)
    (hold : ¬ workspace.IsFolder (here ++ [name])) (content : List UInt8) :
    Keeps {here ++ [name]} workspace (workspace.writeFile (here ++ [name]) content) := by
  obtain ⟨file, -, hset⟩ := workspace.exists_writeFile_eq_set (here ++ [name]) content
  rw [hset]
  exact h.keeps_set hold (by simp [Item.lookup])

/-! ## Making folders -/

theorem IsFolder.keeps_set_folder (hhere : workspace.IsFolder here)
    (hmissing : workspace.lookup (here ++ [name]) = .error .notFound) :
    Keeps ∅ workspace (workspace.set (here ++ [name]) (.folder [])) := by
  have hold : ¬ workspace.IsFolder (here ++ [name]) := by
    rintro ⟨items, h⟩
    simp [hmissing] at h
  have hempty (step : String) (rest : List String) (found : Item) :
      (Item.folder []).lookup (step :: rest) ≠ .ok found := by
    simp [Item.lookup, Item.find?]
  have hkeeps := hhere.keeps_set hold hempty
  refine ⟨hkeeps.current, hkeeps.folder, fun names _ item hitem ↦ ?_⟩
  by_cases hnames : names = here ++ [name]
  · subst hnames
    rw [hhere.lookup_set_self, hmissing]
    simp [(hitem []).symm]
  · exact hkeeps.leaf names hnames item hitem

/-- What making the first of several folders comes to. -/
theorem makeFolders_step (workspace : Workspace) (here : List String) (part : String) :
    (part = ".." ∧ ∀ missing done rest, workspace.makeFolders missing done here (part :: rest) =
      workspace.makeFolders missing (done ++ [part]) here.dropLast rest) ∨
    (part ≠ ".." ∧ workspace.IsFolder (here ++ [part]) ∧
      ∀ missing done rest, workspace.makeFolders missing done here (part :: rest) =
        workspace.makeFolders missing (done ++ [part]) (here ++ [part]) rest) ∨
    (part ≠ ".." ∧ (∃ fault, workspace.lookup (here ++ [part]) = .error fault) ∧
      ∀ missing done rest, workspace.makeFolders missing done here (part :: rest) =
        (workspace.set (here ++ [part]) (.folder [])).makeFolders true (done ++ [part])
          (here ++ [part]) rest) ∨
    ∀ missing done rest, ∃ fault,
      workspace.makeFolders missing done here (part :: rest) = (workspace, .error fault) := by
  by_cases hpart : part = ".."
  · exact .inl ⟨hpart, fun missing done rest ↦ by rw [makeFolders, if_pos hpart]⟩
  · right
    cases hfound : workspace.lookup (here ++ [part]) with
    | error fault =>
      refine .inr (.inl ⟨hpart, ⟨fault, rfl⟩, ?_⟩)
      intro missing done rest
      simp [makeFolders, hpart, hfound]
    | ok item =>
      cases item with
      | folder items =>
        refine .inl ⟨hpart, ⟨items, hfound⟩, ?_⟩
        intro missing done rest
        simp [makeFolders, hpart, hfound]
      | file file =>
        refine .inr (.inr ?_)
        intro missing done rest
        simp only [makeFolders, hpart, hfound, if_false]
        split
        · exact ⟨_, rfl⟩
        · exact ⟨_, rfl⟩
      | link =>
        refine .inr (.inr ?_)
        intro missing done rest
        simp only [makeFolders, hpart, hfound, if_false]
        exact ⟨_, rfl⟩

/-- Making folders leaves all files as they are, also when it breaks off. -/
theorem IsFolder.keeps_makeFolders (hhere : workspace.IsFolder here) (missing : Bool)
    (done parts : List String) :
    Keeps ∅ workspace (workspace.makeFolders missing done here parts).1 := by
  induction parts generalizing workspace missing done here with
  | nil => exact .refl _ _
  | cons part rest ih =>
    obtain ⟨-, hstep⟩ | ⟨-, hnext, hstep⟩ | ⟨-, ⟨fault, hfault⟩, hstep⟩ | hstep :=
      makeFolders_step workspace here part
    · rw [hstep]
      exact ih hhere.dropLast _ _
    · rw [hstep]
      exact ih hnext _ _
    · rw [hstep]
      rw [hhere.eq_notFound part hfault] at hfault
      have hmade := hhere.lookup_set_self part (.folder [])
      exact (hhere.keeps_set_folder hfault).trans (ih ⟨[], hmade⟩ _ _)
    · obtain ⟨fault, hstep⟩ := hstep missing done rest
      rw [hstep]
      exact .refl _ _

/-- Making folders leads to a folder. -/
theorem IsFolder.of_makeFolders (hhere : workspace.IsFolder here) {missing : Bool}
    {done parts : List String}
    (h : workspace.makeFolders missing done here parts = (made, .ok home)) :
    made.IsFolder home := by
  induction parts generalizing workspace missing done here with
  | nil =>
    obtain ⟨rfl, rfl⟩ : workspace = made ∧ here = home := by simpa [makeFolders] using h
    exact hhere
  | cons part rest ih =>
    obtain ⟨-, hstep⟩ | ⟨-, hnext, hstep⟩ | ⟨-, -, hstep⟩ | hstep :=
      makeFolders_step workspace here part
    · exact ih hhere.dropLast (hstep missing done rest ▸ h)
    · exact ih hnext (hstep missing done rest ▸ h)
    · exact ih ⟨[], hhere.lookup_set_self part _⟩ (hstep missing done rest ▸ h)
    · obtain ⟨fault, hstep⟩ := hstep missing done rest
      simp [hstep] at h

/-- Folders that were made are found again, as long as folders stay folders. -/
theorem IsFolder.makeFolders_again {later : Workspace} (hhere : workspace.IsFolder here)
    {missing : Bool} {done parts : List String}
    (h : workspace.makeFolders missing done here parts = (made, .ok home))
    (hlater : ∀ names, made.IsFolder names → later.IsFolder names) (missing' : Bool)
    (done' : List String) :
    later.makeFolders missing' done' here parts = (later, .ok home) := by
  induction parts generalizing workspace missing done here done' with
  | nil =>
    obtain ⟨rfl, rfl⟩ : workspace = made ∧ here = home := by simpa [makeFolders] using h
    rfl
  | cons part rest ih =>
    -- the folder that the first step reaches stays while the others are made
    have hfound (between : Workspace) (missing : Bool) (hpart : part ≠ "..")
        (hnext : between.IsFolder (here ++ [part]))
        (h : between.makeFolders missing (done ++ [part]) (here ++ [part]) rest =
          (made, .ok home)) :
        later.makeFolders missing' done' here (part :: rest) = (later, .ok home) := by
      have hkeeps := hnext.keeps_makeFolders missing (done ++ [part]) rest
      rw [h] at hkeeps
      obtain ⟨items, hfound⟩ := hlater _ (hkeeps.folder _ hnext)
      rw [makeFolders, if_neg hpart]
      simp only [hfound]
      exact ih hnext h _
    obtain ⟨rfl, hstep⟩ | ⟨hpart, hnext, hstep⟩ | ⟨hpart, -, hstep⟩ | hstep :=
      makeFolders_step workspace here part
    · rw [makeFolders, if_pos rfl]
      exact ih hhere.dropLast (hstep missing done rest ▸ h) _
    · exact hfound workspace missing hpart hnext (hstep missing done rest ▸ h)
    · exact hfound _ true hpart ⟨[], hhere.lookup_set_self part _⟩ (hstep missing done rest ▸ h)
    · obtain ⟨fault, hstep⟩ := hstep missing done rest
      simp [hstep] at h

/-- Making more folders goes on where making some has led. -/
theorem makeFolders_append {missing : Bool} {done parts : List String}
    (h : workspace.makeFolders missing done here parts = (made, .ok home)) (more : List String) :
    ∃ missing', workspace.makeFolders missing done here (parts ++ more) =
      made.makeFolders missing' (done ++ parts) home more := by
  induction parts generalizing workspace missing done here with
  | nil =>
    obtain ⟨rfl, rfl⟩ : workspace = made ∧ here = home := by simpa [makeFolders] using h
    exact ⟨missing, by simp⟩
  | cons part rest ih =>
    rw [List.append_cons done, List.cons_append]
    obtain ⟨-, hstep⟩ | ⟨-, -, hstep⟩ | ⟨-, -, hstep⟩ | hstep :=
      makeFolders_step workspace here part
    · rw [hstep] at h ⊢
      exact ih h
    · rw [hstep] at h ⊢
      exact ih h
    · rw [hstep] at h ⊢
      exact ih h
    · obtain ⟨fault, hstep⟩ := hstep missing done rest
      simp [hstep] at h

section Within

variable {later : Workspace} {path : String} {places : Set (List String)}

theorem makeFolderWithin_of_isFolder (h : workspace.IsFolder (workspace.start path))
    (names : List String) :
    workspace.makeFolderWithin path names =
      let run := workspace.makeFolders false [] (workspace.start path) (Path.parts path ++ names)
      (run.1, run.2.mapError fun failure ↦
        ⟨failure.1, Path.ofParts (Path.root? path) failure.2⟩) := by
  obtain ⟨items, hitems⟩ := h
  rw [makeFolderWithin, hitems]
  dsimp only
  generalize workspace.makeFolders _ _ _ _ = run
  obtain ⟨made, outcome⟩ := run
  cases outcome <;> rfl

theorem makeFolderWithin_of_not_isFolder (h : ¬workspace.IsFolder (workspace.start path))
    (names : List String) :
    workspace.makeFolderWithin path names = (workspace, .error ⟨.notFound, "."⟩) := by
  rw [makeFolderWithin]
  split
  · next items hitems => exact absurd ⟨items, hitems⟩ h
  · rfl

theorem makeFolderWithin_eq_ok_iff :
    workspace.makeFolderWithin path names = (made, .ok home) ↔
      workspace.IsFolder (workspace.start path) ∧
      workspace.makeFolders false [] (workspace.start path) (Path.parts path ++ names) =
        (made, .ok home) := by
  by_cases hstart : workspace.IsFolder (workspace.start path)
  · rw [makeFolderWithin_of_isFolder hstart, and_iff_right hstart]
    dsimp only
    generalize workspace.makeFolders _ _ _ _ = run
    obtain ⟨reached, outcome⟩ := run
    cases outcome <;> simp [Except.mapError]
  · simp [makeFolderWithin_of_not_isFolder hstart, hstart]

theorem keeps_makeFolderWithin (workspace : Workspace) (path : String) (names : List String) :
    Keeps ∅ workspace (workspace.makeFolderWithin path names).1 := by
  by_cases hstart : workspace.IsFolder (workspace.start path)
  · rw [makeFolderWithin_of_isFolder hstart]
    exact hstart.keeps_makeFolders _ _ _
  · rw [makeFolderWithin_of_not_isFolder hstart]
    exact .refl _ _

theorem isFolder_of_makeFolder (h : workspace.makeFolder path = (made, .ok home)) :
    made.IsFolder home := by
  obtain ⟨hstart, hmade⟩ := makeFolderWithin_eq_ok_iff.mp h
  exact hstart.of_makeFolders hmade

/-- A folder that was made is found again, as long as folders stay folders. -/
theorem makeFolder_again (h : workspace.makeFolder path = (made, .ok home))
    (hkeeps : Keeps places made later) : later.makeFolder path = (later, .ok home) := by
  obtain ⟨hstart, hmade⟩ := makeFolderWithin_eq_ok_iff.mp h
  have hbefore := workspace.keeps_makeFolderWithin path []
  rw [← makeFolder, h] at hbefore
  have hsame : later.start path = workspace.start path :=
    (hkeeps.start_eq path).trans (hbefore.start_eq path)
  rw [makeFolder, makeFolderWithin_eq_ok_iff, hsame]
  refine ⟨hkeeps.folder _ (hbefore.folder _ hstart), ?_⟩
  exact hstart.makeFolders_again hmade hkeeps.folder false []

/-- Folders below one that is there are made from it on. -/
theorem makeFolderWithin_of_makeFolder (h : workspace.makeFolder path = (made, .ok home))
    (names : List String) :
    ∃ missing, workspace.makeFolderWithin path names =
      let run := made.makeFolders missing (Path.parts path) home names
      (run.1, run.2.mapError fun failure ↦
        ⟨failure.1, Path.ofParts (Path.root? path) failure.2⟩) := by
  obtain ⟨hstart, hmade⟩ := makeFolderWithin_eq_ok_iff.mp h
  rw [List.append_nil] at hmade
  obtain ⟨missing, hall⟩ := makeFolders_append hmade names
  refine ⟨missing, ?_⟩
  rw [makeFolderWithin_of_isFolder hstart, hall, List.nil_append]

end Within

end Workspace

end SyntaxMining
