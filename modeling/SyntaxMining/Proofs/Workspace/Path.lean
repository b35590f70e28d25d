import SyntaxMining.Proofs.Workspace.Change

/-!
# Absolute and relative paths

An absolute path is made of a root and of names. Cut at its slashes it gives the names back behind
empty steps, so it is followed to the place of these names, and opening it opens what stands there.
A relative path is followed to the place of its names below the current directory.
-/

namespace SyntaxMining

namespace Path

/-- A name that an entry of a folder can have. -/
def IsName (name : String) : Prop :=
  name ≠ "" ∧ name ≠ "." ∧ name ≠ ".." ∧ '/' ∉ name.toList

instance : DecidablePred IsName := fun name ↦
  inferInstanceAs (Decidable (name ≠ "" ∧ name ≠ "." ∧ name ≠ ".." ∧ '/' ∉ name.toList))

variable {names other : List String}

/-! ## Cutting at slashes -/

theorem steps_slash_append (left right : String) :
    steps (left ++ "/" ++ right) = steps left ++ steps right := by
  have hlist : (left ++ "/" ++ right).toList = left.toList ++ '/' :: right.toList := by simp
  simp only [steps, Text.splitString, hlist, Text.split_append, List.map_append]

theorem steps_of_notMem {name : String} (h : '/' ∉ name.toList) : steps name = [name] := by
  simp [steps, Text.splitString, Text.split_of_notMem h]

theorem steps_joinWith (hne : names ≠ []) (h : ∀ name ∈ names, '/' ∉ name.toList) :
    steps (Text.joinWith "/" names) = names := by
  induction names with
  | nil => exact absurd rfl hne
  | cons name rest ih =>
    rw [List.forall_mem_cons] at h
    cases rest with
    | nil => exact steps_of_notMem h.1
    | cons next rest =>
      rw [Text.joinWith, steps_slash_append, steps_of_notMem h.1, ih (by simp) h.2,
        List.singleton_append]
      simp

/-- The steps of an absolute path are empty ones and then its names. -/
theorem exists_steps_absolute (root : Root) (h : ∀ name ∈ names, IsName name) :
    ∃ count, steps (absolute root names) = List.replicate count "" ++ names := by
  have hnames : ∃ count, steps (Text.joinWith "/" names) = List.replicate count "" ++ names := by
    by_cases hne : names = []
    · subst hne
      exact ⟨1, rfl⟩
    · exact ⟨0, steps_joinWith hne fun name hname ↦ (h name hname).2.2.2⟩
  obtain ⟨count, hnames⟩ := hnames
  have hslash (path : String) : steps ("/" ++ path) = "" :: steps path := by
    calc
      steps ("/" ++ path) = steps ("" ++ "/" ++ path) := by rw [String.empty_append]
      _ = steps "" ++ steps path := steps_slash_append "" path
      _ = "" :: steps path := by rw [steps_of_notMem (by simp), List.singleton_append]
  cases root with
  | single =>
    refine ⟨count + 1, ?_⟩
    rw [absolute, Root.text, hslash, hnames, List.replicate_succ, List.cons_append]
  | double =>
    have hroot : absolute .double names = "/" ++ ("/" ++ Text.joinWith "/" names) := by
      rw [absolute, ← String.append_assoc]
      rfl
    refine ⟨count + 2, ?_⟩
    rw [hroot, hslash, hslash, hnames, List.replicate_succ, List.replicate_succ, List.cons_append,
      List.cons_append]

theorem filter_leading_eq_self (h : ∀ name ∈ names, IsName name) :
    names.filter (fun step ↦ step ≠ "" && step ≠ ".") = names := by
  rw [List.filter_eq_self]
  intro name hname
  obtain ⟨hempty, hdot, -⟩ := h name hname
  simp [hempty, hdot]

theorem head?_joinWith_ne (h : ∀ name ∈ names, IsName name) :
    (Text.joinWith "/" names).toList.head? ≠ some '/' := by
  have hname (name rest : String) (hname : IsName name) :
      (name ++ rest).toList.head? ≠ some '/' := by
    obtain ⟨hempty, -, -, hslash⟩ := hname
    intro hhead
    cases hchars : name.toList with
    | nil => exact hempty (String.toList_eq_nil_iff.mp hchars)
    | cons char chars =>
      obtain rfl : char = '/' := by simpa [hchars] using hhead
      simp [hchars] at hslash
  cases names with
  | nil => simp [Text.joinWith]
  | cons first rest =>
    rw [List.forall_mem_cons] at h
    cases rest with
    | nil => simpa [Text.joinWith] using hname first "" h.1
    | cons next rest =>
      have hjoin : Text.joinWith "/" (first :: next :: rest) =
          first ++ "/" ++ Text.joinWith "/" (next :: rest) := rfl
      rw [hjoin, String.append_assoc]
      exact hname first _ h.1

/-! ## Absolute paths -/

theorem parts_absolute (root : Root) (h : ∀ name ∈ names, IsName name) :
    parts (absolute root names) = names := by
  obtain ⟨count, hsteps⟩ := exists_steps_absolute root h
  rw [parts, hsteps, List.filter_append, filter_leading_eq_self h,
    List.filter_replicate_of_neg (by simp),
    List.nil_append]

theorem absolute_injective (root : Root) (h : ∀ name ∈ names, IsName name)
    (h' : ∀ name ∈ other, IsName name) (heq : absolute root names = absolute root other) :
    names = other :=
  calc
    names = parts (absolute root names) := (parts_absolute root h).symm
    _ = parts (absolute root other) := congrArg parts heq
    _ = other := parts_absolute root h'

theorem name_absolute (root : Root) (h : ∀ name ∈ names, IsName name) :
    name (absolute root names) = names.getLastD "" := by
  rw [name, parts_absolute root h]

/-- What an absolute path starts with can be read off, since no name starts with a slash. -/
theorem root?_absolute (root : Root) (h : ∀ name ∈ names, IsName name) :
    root? (absolute root names) = some root := by
  have hslash : (Text.joinWith "/" names).toList.head? ≠ some '/' := head?_joinWith_ne h
  cases root with
  | single =>
    have hlist : (absolute .single names).toList = '/' :: (Text.joinWith "/" names).toList := by
      simp [absolute, Root.text]
    unfold root?
    split <;> grind
  | double =>
    have hlist : (absolute .double names).toList =
        '/' :: '/' :: (Text.joinWith "/" names).toList := by
      simp [absolute, Root.text]
    unfold root?
    split <;> grind

theorem root_absolute (root : Root) (h : ∀ name ∈ names, IsName name) :
    Path.root (absolute root names) = root := by
  rw [Path.root, root?_absolute root h, Option.getD_some]

theorem isAbsolute_absolute (root : Root) (h : ∀ name ∈ names, IsName name) :
    isAbsolute (absolute root names) := by
  rw [isAbsolute, root?_absolute root h, Option.isSome_some]

/-! ## Relative paths -/

theorem root?_relative (h : ∀ name ∈ names, IsName name) : root? (relative names) = none := by
  cases names with
  | nil => rfl
  | cons name rest =>
    have hslash : (Text.joinWith "/" (name :: rest)).toList.head? ≠ some '/' := head?_joinWith_ne h
    unfold relative root?
    split <;> grind

theorem root_relative (h : ∀ name ∈ names, IsName name) : root (relative names) = .single := by
  rw [root, root?_relative h, Option.getD_none]

theorem parts_relative (h : ∀ name ∈ names, IsName name) : parts (relative names) = names := by
  cases names with
  | nil => rfl
  | cons name rest =>
    have hrelative : relative (name :: rest) = Text.joinWith "/" (name :: rest) := rfl
    rw [hrelative, parts, steps_joinWith (by simp) fun name hname ↦ (h name hname).2.2.2,
      filter_leading_eq_self h]

/-! ## Following parts -/

theorem follow_eq_append (here : List String) (h : ∀ name ∈ names, IsName name) :
    follow here names = here ++ names := by
  induction names generalizing here with
  | nil => simp [follow]
  | cons name rest ih =>
    rw [List.forall_mem_cons] at h
    rw [follow, if_neg h.1.2.2.1, ih _ h.2, List.append_assoc, List.singleton_append]

end Path

namespace Workspace

variable {workspace : Workspace} {names here : List String} {item : Item}

/-- An absolute path is followed to the place of its names. -/
theorem placeOf_absolute (workspace : Workspace) (root : Path.Root)
    (h : ∀ name ∈ names, Path.IsName name) :
    workspace.placeOf (Path.absolute root names) = names := by
  rw [placeOf, start, if_pos (Path.isAbsolute_absolute root h), Path.parts_absolute root h,
    Path.follow_eq_append [] h, List.nil_append]

theorem placeOf_relative (workspace : Workspace) (h : ∀ name ∈ names, Path.IsName name) :
    workspace.placeOf (Path.relative names) = workspace.current ++ names := by
  have hrelative : ¬Path.isAbsolute (Path.relative names) := by
    rw [Path.isAbsolute, Path.root?_relative h]
    simp
  rw [placeOf, start, if_neg hrelative, Path.parts_relative h, Path.follow_eq_append _ h]

theorem IsFolder.walkSteps_replicate (h : workspace.IsFolder here) (count : Nat)
    (rest : List String) :
    workspace.walkSteps here (List.replicate count "" ++ rest) = workspace.walkSteps here rest := by
  obtain ⟨items, hitems⟩ := h
  induction count with
  | zero => rfl
  | succ count ih => simpa [List.replicate_succ, walkSteps, hitems] using ih

/-- Names that lead to something are followed through folders. -/
theorem walkSteps_of_lookup (h : ∀ name ∈ names, Path.IsName name)
    (hitem : workspace.lookup (here ++ names) = .ok item) :
    workspace.walkSteps here names = .ok (here ++ names) := by
  induction names generalizing here with
  | nil => simp [walkSteps]
  | cons name rest ih =>
    rw [List.forall_mem_cons] at h
    obtain ⟨⟨hempty, hdot, hparent, -⟩, hrest⟩ := h
    obtain ⟨items, hitems⟩ := isFolder_of_lookup_append hitem
    rw [List.append_cons] at hitem ⊢
    simpa [walkSteps, hitems, hempty, hdot, hparent] using ih hrest hitem

/-- Opening an absolute path opens what stands at its names. -/
theorem openFile_absolute (root : Path.Root) (h : ∀ name ∈ names, Path.IsName name)
    (hitem : workspace.lookup names = .ok item) :
    workspace.openFile (Path.absolute root names) = workspace.fileAt names := by
  obtain ⟨count, hsteps⟩ := Path.exists_steps_absolute root h
  have hne : Path.absolute root names ≠ "" := by
    intro hempty
    have habsolute := Path.isAbsolute_absolute root h
    rw [hempty] at habsolute
    exact absurd habsolute (by decide)
  have hresolve : workspace.resolve (Path.absolute root names) = .ok names := by
    rw [resolve, if_neg hne, start, if_pos (Path.isAbsolute_absolute root h), hsteps,
      workspace.isFolder_nil.walkSteps_replicate, walkSteps_of_lookup h hitem, List.nil_append]
  rw [openFile, hresolve]

end Workspace

end SyntaxMining
