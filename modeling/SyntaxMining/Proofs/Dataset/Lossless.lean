import Mathlib.Data.List.Forall2
import SyntaxMining.Dataset.Record
import SyntaxMining.Proofs.Json.RoundTrip
import SyntaxMining.Proofs.Tree.Flatten

/-!
# Lines keep the tree

A reader of a line has the array of flat records and nothing else: it starts at the first record and
follows the ids of children. What it finds that way is the tree that was stored, up to what a line
leaves out: an absent token becomes the empty one, and spans are kept on demand.
-/

namespace SyntaxMining

open Json (Fits)

theorem Position.fits_toJson (position : Position) : Fits 1 position.toJson :=
  .obj (by simp) (by simp [Fits.int])

theorem Span.fits_toJson (span : Span) : Fits 2 span.toJson :=
  .obj (by simp) (by simp [Position.fits_toJson])

theorem Position.toJson_injective : Function.Injective Position.toJson := by
  rintro ⟨line, column⟩ ⟨otherLine, otherColumn⟩ h
  simpa [Position.toJson] using h

theorem Span.toJson_injective : Function.Injective Span.toJson := by
  rintro ⟨start, stop⟩ ⟨otherStart, otherStop⟩ h
  simpa [Span.toJson, Position.toJson_injective.eq_iff] using h

namespace Dataset

/-! ## Lines as values -/

theorem Node.fits_lineJson (node : Node) : Fits 3 node.lineJson := by
  have hchildren : Fits 2 (.arr (node.children.map .int)) := .arr (by simp [Fits.int])
  rw [Node.lineJson]
  cases node.span with
  | none => exact .obj (by simp [presentField]) (by simp [presentField, Fits.str, hchildren])
  | some span =>
    exact .obj (by simp [presentField])
      (by simp [presentField, Fits.str, hchildren, span.fits_toJson])

theorem LabeledTree.fits_lineJson (tree : LabeledTree) : Fits 5 tree.lineJson := by
  have hnodes : Fits 4 (.arr (tree.nodes.map Node.lineJson)) :=
    .arr (by simp [Node.fits_lineJson])
  rw [LabeledTree.lineJson]
  cases tree.path with
  | none => exact .obj (by simp [presentField]) (by simp [presentField, Fits.str, hnodes])
  | some path => exact .obj (by simp [presentField]) (by simp [presentField, Fits.str, hnodes])

theorem LabeledTree.exists_lineJson_eq_obj (tree : LabeledTree) :
    ∃ fields, tree.lineJson = .obj fields ∧
      Json.field? "label" fields = some (.str tree.label) ∧
      Json.field? "path" fields = tree.path.map .str ∧
      Json.field? "ast" fields = some (.arr (tree.nodes.map Node.lineJson)) := by
  rw [LabeledTree.lineJson]
  cases tree.path with
  | none => exact ⟨_, rfl, rfl, rfl, rfl⟩
  | some path => exact ⟨_, rfl, rfl, rfl, rfl⟩

/-! ## Following the ids -/

/-- What a line keeps of a node. -/
def kept (withSpans : Bool) (entry : Entry) : Entry where
  label := entry.label
  token := some (entry.token.getD "")
  span := if withSpans then entry.span else none

/-- A record of a line gives an entry and the ids of the children; what the entry lacks, the record
leaves out. -/
structure Gives (record : Json) (entry : Entry) (ids : List Nat) : Prop where
  token : record.get? "token" = entry.token.map .str
  label : record.get? "typeLabel" = some (.str entry.label.text)
  span : record.get? "range" = entry.span.map Span.toJson
  children : record.get? "children" = some (.arr (ids.map .ofNat))

/-- A tree is found by following the ids of children from the record at one id. -/
inductive Follows (records : List Json) : Nat → SyntaxTree → Prop
  | node {id : Nat} {record : Json} {entry : Entry} {ids : List Nat} {children : List SyntaxTree}
      (here : records[id]? = some record) (gives : Gives record entry ids)
      (below : List.Forall₂ (Follows records) ids children) :
    Follows records id (.node entry children)

theorem Gives.unique {record : Json} {entry other : Entry} {ids others : List Nat}
    (h : Gives record entry ids) (hother : Gives record other others) :
    entry = other ∧ ids = others := by
  have hlabel : entry.label = other.label := by
    have htext := h.label.symm.trans hother.label
    exact congrArg Label.mk (by simpa using htext)
  have htoken : entry.token = other.token :=
    Option.map_injective (fun _ _ ↦ Json.str.inj) (h.token.symm.trans hother.token)
  have hspan : entry.span = other.span :=
    Option.map_injective Span.toJson_injective (h.span.symm.trans hother.span)
  have hids : ids = others := by
    have hitems := Option.some.inj (h.children.symm.trans hother.children)
    have hinjective : Function.Injective Json.ofNat := fun _ _ heq ↦
      Int.ofNat.inj (Json.int.inj heq)
    exact List.map_injective_iff.mpr hinjective (Json.arr.inj hitems)
  obtain ⟨label, token, span⟩ := entry
  obtain ⟨otherLabel, otherToken, otherSpan⟩ := other
  exact ⟨Entry.mk.injEq .. ▸ ⟨hlabel, htoken, hspan⟩, hids⟩

theorem forall₂_unique {records : List Json} {ids : List Nat} {trees others : List SyntaxTree}
    (h : List.Forall₂ (Follows records) ids trees)
    (hothers : List.Forall₂ (Follows records) ids others)
    (hunique : ∀ tree ∈ trees, ∀ {id other}, Follows records id tree → Follows records id other →
      tree = other) : trees = others := by
  induction h generalizing others with
  | nil => cases hothers with
    | nil => rfl
  | @cons id tree ids trees hfirst hrest ih =>
    cases hothers with
    | cons hother hothers =>
      rw [hunique tree (by simp) hfirst hother,
        ih hothers fun tree htree ↦ hunique tree (List.mem_cons_of_mem _ htree)]

/-- No two trees are found from one id. -/
theorem Follows.unique {records : List Json} {id : Nat} {tree other : SyntaxTree}
    (h : Follows records id tree) (hother : Follows records id other) : tree = other := by
  induction tree using Tree.inductionOnChildren generalizing id other with
  | node entry children ih =>
    cases h with
    | node here gives below =>
      cases hother with
      | node otherHere otherGives otherBelow =>
        obtain rfl := Option.some.inj (here.symm.trans otherHere)
        obtain ⟨rfl, rfl⟩ := gives.unique otherGives
        rw [forall₂_unique below otherBelow fun child hchild ↦ ih child hchild]

/-! ## Lines of trees -/

theorem gives_lineJson (withSpans : Bool) (record : Record Entry) :
    Gives (Node.ofRecord withSpans record).lineJson (kept withSpans record.value)
      record.children := by
  have hchildren : (record.children.map Int.ofNat).map Json.int = record.children.map .ofNat := by
    rw [List.map_map]
    rfl
  rw [Node.lineJson, Node.ofRecord, kept]
  cases (if withSpans then record.value.span else none) with
  | none => exact ⟨rfl, rfl, rfl, by simp [presentField, Json.get?, Json.field?, hchildren]⟩
  | some span => exact ⟨rfl, rfl, rfl, by simp [presentField, Json.get?, Json.field?, hchildren]⟩

/-- The array of records in the line of a tree. -/
def lineRecords (withSpans : Bool) (tree : SyntaxTree) : List Json :=
  (tree.flatten.map (Node.ofRecord withSpans)).map Node.lineJson

theorem getElem?_lineRecords (withSpans : Bool) {tree : SyntaxTree} {part : Tree (Nat × Entry)}
    (h : part ∈ (tree.number 0).preorder) :
    (lineRecords withSpans tree)[part.value.1]? =
      some (Node.ofRecord withSpans (Record.ofNumbered part)).lineJson := by
  rw [lineRecords, Tree.flatten_eq, Tree.recordsFrom, List.getElem?_map, List.getElem?_map,
    List.getElem?_map, Tree.getElem?_preorder_number h]
  rfl

theorem follows_lineRecords (withSpans : Bool) {tree : SyntaxTree} {part : Tree (Nat × Entry)}
    (h : part ∈ (tree.number 0).preorder) :
    Follows (lineRecords withSpans tree) part.value.1 (part.map (kept withSpans ∘ Prod.snd)) := by
  induction part with
  | node value children ih =>
    have hbelow : List.Forall₂ (Follows (lineRecords withSpans tree))
        (children.map fun child ↦ child.value.1)
        (children.map (Tree.map (kept withSpans ∘ Prod.snd))) := by
      rw [List.forall₂_map_left_iff, List.forall₂_map_right_iff, List.forall₂_same]
      intro child hchild
      have hpart : child ∈ (Tree.node value children).preorder :=
        Tree.mem_preorder_of_mem_children hchild child.self_mem_preorder
      exact ih child hchild (Tree.mem_preorder_trans h hpart)
    rw [Tree.map_node]
    exact .node (getElem?_lineRecords withSpans h) (gives_lineJson withSpans _) hbelow

/-- From the first record the stored tree is found, and nothing else. -/
theorem follows_lineRecords_iff (withSpans : Bool) (tree read : SyntaxTree) :
    Follows (lineRecords withSpans tree) 0 read ↔ read = tree.map (kept withSpans) := by
  have hroot : Follows (lineRecords withSpans tree) 0 (tree.map (kept withSpans)) := by
    have hfollows := follows_lineRecords withSpans (tree.number 0).self_mem_preorder
    rw [Tree.map_number] at hfollows
    cases tree with
    | node entry children => exact hfollows
  constructor
  · intro hread
    exact hread.unique hroot
  · rintro rfl
    exact hroot

/-- Storing a tree loses nothing: the line holds no control characters, reading it gives the label,
the path if it was asked for and there is one, and records from which the tree is found again. -/
theorem line_labeled_lossless (options : LineOptions) (label : String) (path : Option String)
    (tree : SyntaxTree) :
    (∀ c ∈ (labeled options label path tree).line.toList, 0x20 ≤ c.toNat) ∧
      ∃ fields records,
        (∀ limit, 5 ≤ limit →
          Json.parse? limit (labeled options label path tree).line = some (.obj fields)) ∧
        Json.field? "label" fields = some (.str label) ∧
        Json.field? "path" fields = (if options.withPaths then path.map .str else none) ∧
        Json.field? "ast" fields = some (.arr records) ∧
        ∀ read, Follows records 0 read ↔ read = tree.map (kept options.withSpans) := by
  obtain ⟨fields, hline, hlabel, hpath, hast⟩ :=
    (labeled options label path tree).exists_lineJson_eq_obj
  have hread (limit : Nat) (hlimit : 5 ≤ limit) :
      Json.parse? limit (labeled options label path tree).line = some (.obj fields) :=
    hline ▸ (labeled options label path tree).fits_lineJson.parse?_render hlimit
  have hoptional : (if options.withPaths then path else none).map Json.str =
      if options.withPaths then path.map .str else none := by
    split <;> rfl
  exact ⟨Json.allVisible_render _, fields, lineRecords options.withSpans tree, hread, hlabel,
    hpath.trans hoptional, hast, follows_lineRecords_iff options.withSpans tree⟩

end Dataset

end SyntaxMining
