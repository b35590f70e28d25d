import Mathlib.Algebra.Ring.Parity
import Mathlib.Data.List.Basic
import SyntaxMining.Display.Outline

/-!
# Described nodes read as written

A marked-up text reads as literal text with live tags in it. The reading is first said by rules for
tags with an even and with an odd number of backslashes in front, and found to be what a scan gives.
An escaped text, put in front of a tag, reads as the text itself: its own brackets start no live
tag, and no backslash is lost, not even where it meets the tag. Only two backslashes at the end of a
text are too many. So the description of a node shows its label and its token as they are.
-/

namespace SyntaxMining.Display.Markup

/-! ## Readings -/

/-- Literal text of a piece, before a console swallows any of it. -/
def Piece.literal : Piece → List Char
  | text chars => chars
  | bracket run => backslashes run ++ ['[']
  | tag _ => []

/-- The literal text in front of the first live tag, and each live tag with the literal text that
follows it. -/
structure Reading where
  lead : List Char
  tags : List (List Char × List Char)
deriving DecidableEq

namespace Reading

/-- Literal text in front of what is read. -/
def after (chars : List Char) (reading : Reading) : Reading :=
  ⟨chars ++ reading.lead, reading.tags⟩

/-- A live tag in front of what is read. -/
def behind (name : List Char) (reading : Reading) : Reading :=
  ⟨[], (name, reading.lead) :: reading.tags⟩

def ofPieces : List Piece → Reading
  | [] => ⟨[], []⟩
  | .tag name :: rest => (ofPieces rest).behind name
  | piece :: rest => (ofPieces rest).after piece.literal

@[simp]
theorem after_after (first second : List Char) (reading : Reading) :
    (reading.after second).after first = reading.after (first ++ second) := by
  simp [after]

end Reading

/-- What a text reads as behind some backslashes. -/
def readFrom (run : Nat) (chars : List Char) : Reading :=
  .ofPieces (scanFrom (.text run) chars)

/-- Names of tags: a character that starts tags, and no brackets. -/
def IsTagName (name : List Char) : Prop :=
  ∃ first rest, name = first :: rest ∧ isTagStart first ∧ ∀ c ∈ rest, c ≠ '[' ∧ c ≠ ']'

/-- No tag stands at the front, not even behind backslashes. -/
def StartsNoTag (chars : List Char) : Prop :=
  ∀ count name tail, IsTagName name → chars ≠ backslashes count ++ '[' :: name ++ ']' :: tail

/-- The rules by which a text reads. Backslashes in front of a tag stand for half as many; one that
is left over makes the tag literal. Whatever no tag starts with is literal. -/
inductive Reads : List Char → Reading → Prop where
  | nil : Reads [] ⟨[], []⟩
  | live {count : Nat} {name rest : List Char} {reading : Reading} (tag : IsTagName name)
      (follows : Reads rest reading) :
      Reads (backslashes (2 * count) ++ '[' :: name ++ ']' :: rest)
        ((reading.behind name).after (backslashes count))
  | plain {count : Nat} {name rest : List Char} {reading : Reading} (tag : IsTagName name)
      (follows : Reads rest reading) :
      Reads (backslashes (2 * count + 1) ++ '[' :: name ++ ']' :: rest)
        (reading.after (backslashes count ++ '[' :: name ++ [']']))
  | other {c : Char} {rest : List Char} {reading : Reading} (untagged : StartsNoTag (c :: rest))
      (follows : Reads rest reading) : Reads (c :: rest) (reading.after [c])

/-! ## Tags -/

theorem closes_iff {chars : List Char} :
    closes chars ↔ ∃ inner tail, chars = inner ++ ']' :: tail ∧ ∀ c ∈ inner, c ≠ '[' ∧ c ≠ ']' := by
  induction chars with
  | nil => simp [closes]
  | cons c rest ih =>
    rw [closes]
    split
    · next hclose =>
      simp only [true_iff]
      exact ⟨[], rest, by rw [hclose, List.nil_append], by simp⟩
    · next hclose =>
      split
      · next hopen =>
        simp only [Bool.false_eq_true, false_iff]
        rintro ⟨inner, tail, heq, hinner⟩
        cases inner with
        | nil => exact hclose (List.cons.inj heq).1
        | cons d inner =>
          obtain ⟨rfl, -⟩ := List.cons.inj heq
          exact (hinner c List.mem_cons_self).1 hopen
      · next hopen =>
        rw [ih]
        constructor
        · rintro ⟨inner, tail, rfl, hinner⟩
          exact ⟨c :: inner, tail, rfl, List.forall_mem_cons.mpr ⟨⟨hopen, hclose⟩, hinner⟩⟩
        · rintro ⟨inner, tail, heq, hinner⟩
          cases inner with
          | nil => exact absurd (List.cons.inj heq).1 hclose
          | cons d inner =>
            obtain ⟨rfl, rfl⟩ := List.cons.inj heq
            exact ⟨inner, tail, rfl, fun e he ↦ hinner e (List.mem_cons_of_mem c he)⟩

/-- A bracket opens a tag when a tag's name and a closing bracket follow. -/
theorem opensTag_iff {chars : List Char} :
    opensTag chars ↔ ∃ name tail, IsTagName name ∧ chars = name ++ ']' :: tail := by
  constructor
  · intro h
    cases chars with
    | nil => simp [opensTag] at h
    | cons first rest =>
      rw [opensTag, Bool.and_eq_true, closes_iff] at h
      obtain ⟨hfirst, inner, tail, rfl, hinner⟩ := h
      exact ⟨first :: inner, tail, ⟨first, inner, rfl, hfirst, hinner⟩, rfl⟩
  · rintro ⟨_, tail, ⟨first, inner, rfl, hfirst, hinner⟩, rfl⟩
    rw [List.cons_append, opensTag, Bool.and_eq_true, closes_iff]
    exact ⟨hfirst, inner, tail, rfl, hinner⟩

theorem IsTagName.ne_brackets {name : List Char} (h : IsTagName name) :
    ∀ c ∈ name, c ≠ '[' ∧ c ≠ ']' := by
  obtain ⟨first, rest, rfl, hfirst, hrest⟩ := h
  refine List.forall_mem_cons.mpr ⟨⟨?_, ?_⟩, hrest⟩
  · rintro rfl
    exact absurd hfirst (by decide)
  · rintro rfl
    exact absurd hfirst (by decide)

theorem backslashes_succ (count : Nat) : backslashes (count + 1) = '\\' :: backslashes count :=
  List.replicate_succ

theorem backslashes_add (first second : Nat) :
    backslashes (first + second) = backslashes first ++ backslashes second :=
  List.replicate_add _ _ _

theorem startsNoTag_backslash {rest : List Char} :
    StartsNoTag ('\\' :: rest) ↔ StartsNoTag rest := by
  constructor
  · rintro h count name tail hname rfl
    exact h (count + 1) name tail hname (by rw [backslashes_succ]; rfl)
  · intro h count name tail hname heq
    cases count with
    | zero => exact absurd (List.cons.inj heq).1 (by decide)
    | succ count =>
      rw [backslashes_succ] at heq
      exact h count name tail hname (List.cons.inj heq).2

theorem startsNoTag_bracket {rest : List Char} : StartsNoTag ('[' :: rest) ↔ ¬opensTag rest := by
  rw [opensTag_iff]
  constructor
  · rintro h ⟨name, tail, hname, rfl⟩
    exact h 0 name tail hname rfl
  · intro h count name tail hname heq
    cases count with
    | zero => exact h ⟨name, tail, hname, (List.cons.inj heq).2⟩
    | succ count =>
      rw [backslashes_succ] at heq
      exact absurd (List.cons.inj heq).1 (by decide)

theorem startsNoTag_char {c : Char} (rest : List Char) (hslash : c ≠ '\\') (hopen : c ≠ '[') :
    StartsNoTag (c :: rest) := by
  intro count name tail _ heq
  cases count with
  | zero => exact hopen (List.cons.inj heq).1
  | succ count =>
    rw [backslashes_succ] at heq
    exact hslash (List.cons.inj heq).1

/-- Texts are built by putting tags and other characters in front. -/
@[elab_as_elim]
theorem tagInduction {motive : List Char → Prop} (nil : motive [])
    (tag : ∀ count name rest, IsTagName name → motive rest →
      motive (backslashes count ++ '[' :: name ++ ']' :: rest))
    (other : ∀ c rest, StartsNoTag (c :: rest) → motive rest → motive (c :: rest))
    (chars : List Char) : motive chars := by
  by_cases hstart : StartsNoTag chars
  · cases chars with
    | nil => exact nil
    | cons c rest => exact other c rest hstart (tagInduction nil tag other rest)
  · obtain ⟨count, name, rest, hname, hchars⟩ : ∃ count name rest, IsTagName name ∧
        chars = backslashes count ++ '[' :: name ++ ']' :: rest := by
      simpa [StartsNoTag] using hstart
    have hrest : motive rest := tagInduction nil tag other rest
    exact hchars ▸ tag count name rest hname hrest
termination_by chars.length
decreasing_by
  · simp
  · rw [hchars, List.length_append, List.length_cons]
    omega

/-! ## Scanning by the rules -/

theorem readFrom_backslash (run : Nat) (rest : List Char) :
    readFrom run ('\\' :: rest) = readFrom (run + 1) rest := by
  rw [readFrom, scanFrom, if_pos rfl, readFrom]

theorem readFrom_backslashes (run count : Nat) (rest : List Char) :
    readFrom run (backslashes count ++ rest) = readFrom (run + count) rest := by
  induction count generalizing run with
  | zero => rfl
  | succ count ih =>
    rw [backslashes_succ, List.cons_append, readFrom_backslash, ih, Nat.add_assoc, Nat.add_comm 1]

theorem readFrom_char {c : Char} {rest : List Char} (run : Nat) (hslash : c ≠ '\\')
    (h : StartsNoTag (c :: rest)) :
    readFrom run (c :: rest) = (readFrom 0 rest).after (backslashes run ++ [c]) := by
  by_cases hopen : c = '['
  · subst hopen
    rw [readFrom, scanFrom, if_neg hslash, if_pos rfl, if_neg (startsNoTag_bracket.mp h)]
    rfl
  · rw [readFrom, scanFrom, if_neg hslash, if_neg hopen]
    rfl

theorem scanFrom_inside {inner : List Char} (live : Bool) (name rest : List Char)
    (h : ∀ c ∈ inner, c ≠ ']') :
    scanFrom (.tag live name) (inner ++ ']' :: rest) =
      closeTag live (inner.reverse ++ name) :: scanFrom (.text 0) rest := by
  induction inner generalizing name with
  | nil => rw [List.nil_append, scanFrom, if_pos rfl, List.reverse_nil, List.nil_append]
  | cons c inner ih =>
    rw [List.forall_mem_cons] at h
    rw [List.cons_append, scanFrom, if_neg h.1, ih _ h.2]
    simp

/-- A tag gives half of the backslashes in front of it, and is live when their number is even. -/
theorem scanFrom_tag {name : List Char} (h : IsTagName name) (run : Nat) (rest : List Char) :
    scanFrom (.text run) ('[' :: (name ++ ']' :: rest)) =
      .text (backslashes (run / 2)) :: closeTag (run % 2 = 0) name.reverse ::
        scanFrom (.text 0) rest := by
  have hopens : opensTag (name ++ ']' :: rest) := opensTag_iff.mpr ⟨name, rest, h, rfl⟩
  rw [scanFrom, if_neg (by decide), if_pos rfl, if_pos hopens,
    scanFrom_inside _ _ _ fun c hc ↦ (h.ne_brackets c hc).2, List.append_nil]

theorem readFrom_live {name : List Char} (h : IsTagName name) (count : Nat) (rest : List Char) :
    readFrom 0 (backslashes (2 * count) ++ '[' :: name ++ ']' :: rest) =
      ((readFrom 0 rest).behind name).after (backslashes count) := by
  rw [List.append_assoc, readFrom_backslashes, List.cons_append, readFrom, scanFrom_tag h]
  simp [closeTag, Reading.ofPieces, Piece.literal, readFrom]

theorem readFrom_plain {name : List Char} (h : IsTagName name) (count : Nat) (rest : List Char) :
    readFrom 0 (backslashes (2 * count + 1) ++ '[' :: name ++ ']' :: rest) =
      (readFrom 0 rest).after (backslashes count ++ '[' :: name ++ [']']) := by
  have hhalf : (2 * count + 1) / 2 = count := by omega
  rw [List.append_assoc, readFrom_backslashes, List.cons_append, readFrom, scanFrom_tag h]
  simp [closeTag, Reading.ofPieces, Piece.literal, readFrom, hhalf]

/-- Backslashes in front of no tag are literal. -/
theorem readFrom_of_startsNoTag {chars : List Char} (run : Nat) (h : StartsNoTag chars) :
    readFrom run chars = (readFrom 0 chars).after (backslashes run) := by
  induction chars generalizing run with
  | nil => simp [readFrom, scanFrom, Reading.ofPieces, Reading.after, Piece.literal, backslashes]
  | cons c rest ih =>
    by_cases hslash : c = '\\'
    · subst hslash
      have hrest : StartsNoTag rest := startsNoTag_backslash.mp h
      rw [readFrom_backslash, readFrom_backslash, ih (run + 1) hrest, ih (0 + 1) hrest,
        Reading.after_after, ← backslashes_add, Nat.zero_add]
    · rw [readFrom_char run hslash h, readFrom_char 0 hslash h, Reading.after_after]
      rfl

theorem readFrom_other {c : Char} {rest : List Char} (h : StartsNoTag (c :: rest)) :
    readFrom 0 (c :: rest) = (readFrom 0 rest).after [c] := by
  by_cases hslash : c = '\\'
  · subst hslash
    rw [readFrom_backslash, readFrom_of_startsNoTag (0 + 1) (startsNoTag_backslash.mp h)]
    rfl
  · exact readFrom_char 0 hslash h

theorem Reads.eq_readFrom {chars : List Char} {reading : Reading} (h : Reads chars reading) :
    reading = readFrom 0 chars := by
  induction h with
  | nil => rfl
  | live tag _ ih => rw [readFrom_live tag, ih]
  | plain tag _ ih => rw [readFrom_plain tag, ih]
  | other untagged _ ih => rw [readFrom_other untagged, ih]

theorem exists_reads (chars : List Char) : ∃ reading, Reads chars reading := by
  induction chars using tagInduction with
  | nil => exact ⟨_, .nil⟩
  | tag count name rest hname ih =>
    obtain ⟨reading, hreading⟩ := ih
    obtain ⟨half, rfl | rfl⟩ := count.even_or_odd'
    · exact ⟨_, .live hname hreading⟩
    · exact ⟨_, .plain hname hreading⟩
  | other c rest hstart ih =>
    obtain ⟨reading, hreading⟩ := ih
    exact ⟨_, .other hstart hreading⟩

/-- A text has exactly one reading, the one a scan gives. -/
theorem reads_iff {chars : List Char} {reading : Reading} :
    Reads chars reading ↔ reading = readFrom 0 chars := by
  refine ⟨Reads.eq_readFrom, ?_⟩
  rintro rfl
  obtain ⟨reading, hreading⟩ := exists_reads chars
  exact hreading.eq_readFrom ▸ hreading

/-! ## Escaped texts -/

theorem escapeFrom_backslash (run : Nat) (rest : List Char) :
    escapeFrom run ('\\' :: rest) = escapeFrom (run + 1) rest := by
  rw [escapeFrom, if_pos rfl]

theorem escapeFrom_backslashes (run count : Nat) (rest : List Char) :
    escapeFrom run (backslashes count ++ rest) = escapeFrom (run + count) rest := by
  induction count generalizing run with
  | zero => rfl
  | succ count ih =>
    rw [backslashes_succ, List.cons_append, escapeFrom_backslash, ih, Nat.add_assoc, Nat.add_comm 1]

theorem escapeFrom_char {c : Char} {rest : List Char} (run : Nat) (hslash : c ≠ '\\')
    (h : StartsNoTag (c :: rest)) :
    escapeFrom run (c :: rest) = backslashes run ++ c :: escapeFrom 0 rest := by
  have hopens : ¬(c = '[' && opensTag rest) := by
    intro hopens
    obtain ⟨rfl, hopens⟩ : c = '[' ∧ opensTag rest := by simpa using hopens
    exact startsNoTag_bracket.mp h hopens
  rw [escapeFrom, if_neg hslash, if_neg hopens]

theorem escapeFrom_of_startsNoTag {chars : List Char} (run : Nat) (h : StartsNoTag chars) :
    escapeFrom run chars = backslashes run ++ escapeFrom 0 chars := by
  induction chars generalizing run with
  | nil => simp [escapeFrom, backslashes]
  | cons c rest ih =>
    by_cases hslash : c = '\\'
    · subst hslash
      have hrest : StartsNoTag rest := startsNoTag_backslash.mp h
      rw [escapeFrom_backslash, escapeFrom_backslash, ih (run + 1) hrest, ih (0 + 1) hrest,
        backslashes_add, List.append_assoc, Nat.zero_add]
    · rw [escapeFrom_char run hslash h, escapeFrom_char 0 hslash h]
      rfl

theorem escapeFrom_other {c : Char} {rest : List Char} (h : StartsNoTag (c :: rest)) :
    escapeFrom 0 (c :: rest) = c :: escapeFrom 0 rest := by
  by_cases hslash : c = '\\'
  · subst hslash
    rw [escapeFrom_backslash, escapeFrom_of_startsNoTag (0 + 1) (startsNoTag_backslash.mp h)]
    rfl
  · exact escapeFrom_char 0 hslash h

theorem escapeFrom_inside {inner : List Char} (run : Nat) (rest : List Char)
    (h : ∀ c ∈ inner, c ≠ '[') :
    escapeFrom run (inner ++ ']' :: rest) =
      backslashes run ++ inner ++ ']' :: escapeFrom 0 rest := by
  induction inner generalizing run with
  | nil => simp [escapeFrom]
  | cons c inner ih =>
    rw [List.forall_mem_cons] at h
    by_cases hslash : c = '\\'
    · subst hslash
      rw [List.cons_append, escapeFrom_backslash, ih _ h.2, backslashes_add]
      simp [backslashes]
    · rw [List.cons_append, escapeFrom_char run hslash (startsNoTag_char _ hslash h.1), ih _ h.2]
      simp [backslashes]

/-- An escaped tag has an odd number of backslashes in front. -/
theorem escapeFrom_tag {name : List Char} (h : IsTagName name) (count : Nat) (rest : List Char) :
    escapeFrom 0 (backslashes count ++ '[' :: name ++ ']' :: rest) =
      backslashes (2 * count + 1) ++ '[' :: name ++ ']' :: escapeFrom 0 rest := by
  have hopens : opensTag (name ++ ']' :: rest) := opensTag_iff.mpr ⟨name, rest, h, rfl⟩
  rw [List.append_assoc, escapeFrom_backslashes, List.cons_append, escapeFrom, if_neg (by decide),
    if_pos (by simpa using hopens), escapeFrom_inside _ _ fun c hc ↦ (h.ne_brackets c hc).1]
  simp [backslashes]

theorem getLast?_escapeFrom (chars : List Char) :
    (escapeFrom 0 chars).getLast? = chars.getLast? := by
  induction chars using tagInduction with
  | nil => rfl
  | tag count name rest hname ih =>
    rw [escapeFrom_tag hname, List.getLast?_append_cons, List.getLast?_append_cons,
      List.getLast?_cons, List.getLast?_cons, ih]
  | other c rest hstart ih =>
    rw [escapeFrom_other hstart, List.getLast?_cons, List.getLast?_cons, ih]

theorem opensTag_concat_backslash (chars : List Char) :
    opensTag (chars ++ ['\\']) = opensTag chars := by
  have hcloses (rest : List Char) : closes (rest ++ ['\\']) = closes rest := by
    induction rest with
    | nil => rfl
    | cons c rest ih => rw [List.cons_append, closes, closes, ih]
  cases chars with
  | nil => rfl
  | cons c rest => rw [List.cons_append, opensTag, opensTag, hcloses]

theorem escapeFrom_concat_backslash (run : Nat) (chars : List Char) :
    escapeFrom run (chars ++ ['\\']) = escapeFrom run chars ++ ['\\'] := by
  induction chars generalizing run with
  | nil => simp [escapeFrom, backslashes, List.replicate_succ']
  | cons c rest ih =>
    rw [List.cons_append, escapeFrom, escapeFrom, opensTag_concat_backslash, ih, ih]
    split_ifs <;> simp

/-! ## Escaped texts in front of tags -/

theorem closes_of_opensTag {chars : List Char} (h : opensTag chars) : closes chars := by
  obtain ⟨name, tail, hname, rfl⟩ := opensTag_iff.mp h
  exact closes_iff.mpr ⟨name, tail, rfl, hname.ne_brackets⟩

theorem closes_backslashes (count : Nat) (more : List Char) :
    closes (backslashes count ++ '[' :: more) = false := by
  induction count with
  | zero => rfl
  | succ count ih =>
    rwa [backslashes_succ, List.cons_append, closes, if_neg (by decide), if_neg (by decide)]

theorem opensTag_backslashes (count : Nat) (more : List Char) :
    opensTag (backslashes count ++ '[' :: more) = false := by
  rw [← Bool.not_eq_true]
  exact mt closes_of_opensTag (by simp [closes_backslashes])

section Tail

variable {tail : List Char}

/-- Escaping puts no bracket in front of the first one. -/
theorem closes_escapeFrom_append (htail : ¬closes tail) (chars : List Char) :
    closes (escapeFrom 0 chars ++ tail) = closes chars := by
  induction chars using tagInduction with
  | nil => simpa [escapeFrom, backslashes, closes] using htail
  | tag count name rest hname _ =>
    rw [escapeFrom_tag hname]
    simp only [List.append_assoc, List.cons_append, closes_backslashes]
  | other c rest hstart ih =>
    rw [escapeFrom_other hstart, List.cons_append, closes, closes, ih]

theorem opensTag_escapeFrom_append (htail : ¬closes tail) (chars : List Char) :
    opensTag (escapeFrom 0 chars ++ tail) = opensTag chars := by
  induction chars using tagInduction with
  | nil => simpa [escapeFrom, backslashes, opensTag] using mt closes_of_opensTag htail
  | tag count name rest hname _ =>
    rw [escapeFrom_tag hname]
    simp only [List.append_assoc, List.cons_append, opensTag_backslashes]
  | other c rest hstart _ =>
    rw [escapeFrom_other hstart, List.cons_append, opensTag, opensTag,
      closes_escapeFrom_append htail]

theorem startsNoTag_escapeFrom_append (htail : ¬closes tail) {chars : List Char} (hne : chars ≠ [])
    (hlast : chars.getLast? ≠ some '\\') (h : StartsNoTag chars) :
    StartsNoTag (escapeFrom 0 chars ++ tail) := by
  induction chars with
  | nil => exact absurd rfl hne
  | cons c rest ih =>
    rw [escapeFrom_other h, List.cons_append]
    by_cases hslash : c = '\\'
    · subst hslash
      -- the text does not end here, so the backslash meets no tag behind it
      have hrest : rest ≠ [] := by
        rintro rfl
        exact hlast rfl
      rw [List.getLast?_cons_of_ne_nil hrest] at hlast
      exact startsNoTag_backslash.mpr (ih hrest hlast (startsNoTag_backslash.mp h))
    · by_cases hopen : c = '['
      · subst hopen
        rw [startsNoTag_bracket, opensTag_escapeFrom_append htail]
        exact startsNoTag_bracket.mp h
      · exact startsNoTag_char _ hslash hopen

/-- An escaped text that ends in no backslash reads as itself. -/
theorem readFrom_escapeFrom_append (htail : ¬closes tail) {chars : List Char}
    (hlast : chars.getLast? ≠ some '\\') :
    readFrom 0 (escapeFrom 0 chars ++ tail) = (readFrom 0 tail).after chars := by
  induction chars using tagInduction with
  | nil => rfl
  | tag count name rest hname ih =>
    have hrest : rest.getLast? ≠ some '\\' := by
      intro hrest
      rw [List.getLast?_append_cons, List.getLast?_cons, hrest] at hlast
      exact hlast rfl
    rw [escapeFrom_tag hname, List.append_assoc, List.cons_append, readFrom_plain hname, ih hrest,
      Reading.after_after]
    simp
  | other c rest hstart ih =>
    have hescaped := startsNoTag_escapeFrom_append htail (List.cons_ne_nil c rest) hlast hstart
    have hrest : rest.getLast? ≠ some '\\' := by
      intro hrest
      rw [List.getLast?_cons, hrest] at hlast
      exact hlast rfl
    rw [escapeFrom_other hstart, List.cons_append] at hescaped ⊢
    rw [readFrom_other hescaped, ih hrest, Reading.after_after]
    rfl

end Tail

theorem guardEnd_of_getLast? {chars : List Char} (h : chars.getLast? ≠ some '\\') :
    guardEnd chars = chars := by
  rw [← List.head?_reverse] at h
  rw [guardEnd]
  split
  · rfl
  · next heq => simp [heq] at h
  · rfl

theorem guardEnd_concat {chars : List Char} (h : chars.getLast? ≠ some '\\') :
    guardEnd (chars ++ ['\\']) = chars ++ backslashes 2 := by
  rw [← List.head?_reverse] at h
  rw [guardEnd, List.reverse_concat]
  split
  · next heq =>
    rw [(List.cons.inj heq).2] at h
    exact absurd rfl h
  · rw [List.append_assoc]
    rfl
  · next hne => exact absurd rfl (hne _)

/-- One backslash at the end of a text is doubled, like those in front of a tag. -/
theorem exists_guardEnd_escapeFrom {chars : List Char} (h : ¬['\\', '\\'] <:+ chars) :
    ∃ body count, chars = body ++ backslashes count ∧ body.getLast? ≠ some '\\' ∧
      guardEnd (escapeFrom 0 chars) = escapeFrom 0 body ++ backslashes (2 * count) := by
  -- with two or more at the end, as many would stay in front of the tag and half of them be lost
  by_cases hlast : chars.getLast? = some '\\'
  · obtain ⟨body, rfl⟩ := List.getLast?_eq_some_iff.mp hlast
    have hbody : body.getLast? ≠ some '\\' := by
      intro hbody
      obtain ⟨front, rfl⟩ := List.getLast?_eq_some_iff.mp hbody
      exact h ⟨front, by simp⟩
    refine ⟨body, 1, rfl, hbody, ?_⟩
    rw [escapeFrom_concat_backslash, guardEnd_concat (by rwa [getLast?_escapeFrom])]
  · refine ⟨chars, 0, by simp [backslashes], hlast, ?_⟩
    rw [guardEnd_of_getLast? (by rwa [getLast?_escapeFrom])]
    simp [backslashes]

/-- An escaped text in front of a live tag reads as itself. -/
theorem readFrom_escape {text : String} {name : List Char} (htext : ¬['\\', '\\'] <:+ text.toList)
    (hname : IsTagName name) (rest : List Char) :
    readFrom 0 ((escape text).toList ++ '[' :: name ++ ']' :: rest) =
      ((readFrom 0 rest).behind name).after text.toList := by
  obtain ⟨body, count, hchars, hlast, hguard⟩ := exists_guardEnd_escapeFrom htext
  have htail : ¬closes (backslashes (2 * count) ++ '[' :: (name ++ ']' :: rest)) := by
    simp [closes_backslashes]
  calc readFrom 0 ((escape text).toList ++ '[' :: name ++ ']' :: rest)
    _ = readFrom 0 (escapeFrom 0 body ++
          (backslashes (2 * count) ++ '[' :: (name ++ ']' :: rest))) := by
      simp [escape, hguard]
    _ = (readFrom 0 (backslashes (2 * count) ++ '[' :: name ++ ']' :: rest)).after body := by
      rw [readFrom_escapeFrom_append htail hlast, List.append_assoc, List.cons_append]
    _ = ((readFrom 0 rest).behind name).after text.toList := by
      rw [readFrom_live hname, Reading.after_after, ← hchars]

/-! ## Escaping by the rules -/

/-- The rules by which a text is escaped. The backslashes in front of a tag are doubled, and one
more makes the tag literal. Whatever no tag starts with stays. -/
inductive Escapes : List Char → List Char → Prop where
  | nil : Escapes [] []
  | tag {count : Nat} {name rest escaped : List Char} (tag : IsTagName name)
      (follows : Escapes rest escaped) :
      Escapes (backslashes count ++ '[' :: name ++ ']' :: rest)
        (backslashes (2 * count + 1) ++ '[' :: name ++ ']' :: escaped)
  | other {c : Char} {rest escaped : List Char} (untagged : StartsNoTag (c :: rest))
      (follows : Escapes rest escaped) : Escapes (c :: rest) (c :: escaped)

/-- A function that escapes texts by the rules and then doubles a backslash that stands alone at the
end. -/
def IsEscaping (escaping : String → String) : Prop :=
  ∀ text, ∃ escaped, Escapes text.toList escaped ∧ (escaping text).toList =
    if ['\\'] <:+ escaped ∧ ¬['\\', '\\'] <:+ escaped then escaped ++ ['\\'] else escaped

theorem Escapes.eq_escapeFrom {chars escaped : List Char} (h : Escapes chars escaped) :
    escaped = escapeFrom 0 chars := by
  induction h with
  | nil => rfl
  | tag tag _ ih => rw [escapeFrom_tag tag, ih]
  | other untagged _ ih => rw [escapeFrom_other untagged, ih]

theorem escapes_escapeFrom (chars : List Char) : Escapes chars (escapeFrom 0 chars) := by
  induction chars using tagInduction with
  | nil => exact .nil
  | tag count name rest hname ih =>
    rw [escapeFrom_tag hname]
    exact .tag hname ih
  | other c rest hstart ih =>
    rw [escapeFrom_other hstart]
    exact .other hstart ih

theorem guardEnd_eq (chars : List Char) :
    guardEnd chars =
      if ['\\'] <:+ chars ∧ ¬['\\', '\\'] <:+ chars then chars ++ ['\\'] else chars := by
  have hone : ['\\'] <:+ chars ↔ ['\\'] <+: chars.reverse := by
    rw [← List.reverse_prefix]
    rfl
  have htwo : ['\\', '\\'] <:+ chars ↔ ['\\', '\\'] <+: chars.reverse := by
    rw [← List.reverse_prefix]
    rfl
  simp only [hone, htwo]
  rw [guardEnd]
  split
  · next heq => simp [heq]
  · next hne heq =>
    rw [heq, if_pos]
    refine ⟨⟨_, rfl⟩, ?_⟩
    rintro ⟨rest, hrest⟩
    exact hne rest (List.cons.inj hrest).2.symm
  · next hne =>
    rw [if_neg]
    rintro ⟨⟨rest, hrest⟩, -⟩
    exact hne rest hrest.symm

/-- The escaping that runs goes by the rules. -/
theorem isEscaping_escape : IsEscaping escape := by
  intro text
  refine ⟨escapeFrom 0 text.toList, escapes_escapeFrom text.toList, ?_⟩
  rw [escape, String.toList_ofList, guardEnd_eq]

/-- The rules leave no choice. -/
theorem IsEscaping.eq_escape {escaping : String → String} (h : IsEscaping escaping) :
    escaping = escape := by
  funext text
  obtain ⟨escaped, hescaped, htext⟩ := h text
  rw [← hescaped.eq_escapeFrom.symm, ← guardEnd_eq] at htext
  rw [← String.toList_inj, htext, escape, String.toList_ofList]

/-! ## Described nodes -/

theorem IsTagName.closing {name : List Char} (h : IsTagName name) : IsTagName ('/' :: name) :=
  ⟨'/', name, rfl, by decide, h.ne_brackets⟩

/-- An escaped text between two tags reads as itself between two live tags. -/
theorem readFrom_wrap_escape {style text : String} (hstyle : IsTagName style.toList)
    (htext : ¬['\\', '\\'] <:+ text.toList) (rest : List Char) :
    readFrom 0 ((wrap style (escape text)).toList ++ rest) =
      ⟨[], (style.toList, text.toList) :: ('/' :: style.toList, (readFrom 0 rest).lead) ::
        (readFrom 0 rest).tags⟩ := by
  calc readFrom 0 ((wrap style (escape text)).toList ++ rest)
    _ = readFrom 0 (backslashes (2 * 0) ++ '[' :: style.toList ++ ']' ::
          ((escape text).toList ++ '[' :: ('/' :: style.toList) ++ ']' :: rest)) := by
      simp [wrap, backslashes]
    _ = ((((readFrom 0 rest).behind ('/' :: style.toList)).after text.toList).behind
          style.toList).after [] := by
      rw [readFrom_live hstyle, readFrom_escape htext hstyle.closing]
      rfl
    _ = _ := by simp [Reading.after, Reading.behind]

/-- A quoted text ends in its mark. -/
theorem not_suffix_quote (token : String) : ¬['\\', '\\'] <:+ (Text.quote token).toList := by
  rintro ⟨front, hfront⟩
  have hmark : Text.quoteMark token.toList ≠ '\\' := by
    rw [Text.quoteMark]
    split <;> decide
  have hlast : (Text.quote token).toList.getLast? = some (Text.quoteMark token.toList) := by
    rw [Text.quote, String.toList_ofList, List.getLast?_concat]
  have hslash : (front ++ ['\\', '\\']).getLast? = some '\\' := by simp
  rw [hfront, hlast] at hslash
  exact hmark (Option.some.inj hslash)

/-- A described node reads as its label between bold tags and, when it has a token, a space and the
quoted token between green tags, whatever brackets and backslashes the label and the token hold. -/
theorem reads_describe_iff {escaping : String → String} (hescaping : IsEscaping escaping)
    (entry : Entry) (hlabel : ¬['\\', '\\'] <:+ entry.label.text.toList) (reading : Reading) :
    Reads (describe escaping entry).toList reading ↔
      reading = match entry.token with
        | none => ⟨[], [("bold".toList, entry.label.text.toList), ("/bold".toList, [])]⟩
        | some token => ⟨[], [("bold".toList, entry.label.text.toList), ("/bold".toList, [' ']),
            ("green".toList, (Text.quote token).toList), ("/green".toList, [])]⟩ := by
  obtain rfl := hescaping.eq_escape
  have hbold : IsTagName "bold".toList := ⟨'b', "old".toList, rfl, by decide, by simp⟩
  have hgreen : IsTagName "green".toList := ⟨'g', "reen".toList, rfl, by decide, by simp⟩
  have hblank (rest : List Char) : readFrom 0 (' ' :: rest) = (readFrom 0 rest).after [' '] :=
    readFrom_other (startsNoTag_char rest (by decide) (by decide))
  rw [reads_iff, describe]
  cases entry.token with
  | none =>
    have h := readFrom_wrap_escape hbold hlabel []
    rw [List.append_nil] at h
    rw [h]
    rfl
  | some token =>
    have h := readFrom_wrap_escape hgreen (not_suffix_quote token) []
    rw [List.append_nil] at h
    simp only [String.toList_append, List.append_assoc]
    rw [readFrom_wrap_escape hbold hlabel, show " ".toList = [' '] by decide,
      List.singleton_append, hblank, h]
    rfl

/-- The label holds a tag behind a backslash, one behind two, and ends in a backslash. -/
theorem reads_describe_iff_backslashes :
    IsEscaping escape ∧ ¬['\\', '\\'] <:+ "\\[x]y\\\\[/bold][\\".toList ∧
      Reads (describe escape ⟨⟨"\\[x]y\\\\[/bold][\\"⟩, some "[/green]", none⟩).toList
        ⟨[], [("bold".toList, "\\[x]y\\\\[/bold][\\".toList), ("/bold".toList, [' ']),
          ("green".toList, "'[/green]'".toList), ("/green".toList, [])]⟩ :=
  ⟨isEscaping_escape, by decide,
    (reads_describe_iff isEscaping_escape _ (by decide) _).mpr (by decide)⟩

end SyntaxMining.Display.Markup
