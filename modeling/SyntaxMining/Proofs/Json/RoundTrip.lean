import SyntaxMining.Json.Parser
import SyntaxMining.Proofs.Json.Scan

/-!
# Reading what was written

A value whose objects have no name twice is read back from its text as it was, provided that the
reader allows as many open arrays and objects as the value nests. The text of a value holds no
control characters.
-/

namespace SyntaxMining.Json

/-- Values whose objects have no name twice and that nest at most `depth` arrays and objects. -/
inductive Fits : Nat → Json → Prop
  | null (depth : Nat) : Fits depth null
  | bool (depth : Nat) (value : Bool) : Fits depth (bool value)
  | int (depth : Nat) (value : Int) : Fits depth (int value)
  | real (depth : Nat) (mantissa exponent : Int) : Fits depth (real mantissa exponent)
  | nonfinite (depth : Nat) : Fits depth nonfinite
  | str (depth : Nat) (value : String) : Fits depth (str value)
  | arr {depth : Nat} {items : List Json} (items_fit : ∀ item ∈ items, Fits depth item) :
    Fits (depth + 1) (arr items)
  | obj {depth : Nat} {fields : List (String × Json)} (nodup : (fields.map Prod.fst).Nodup)
      (values_fit : ∀ field ∈ fields, Fits depth field.2) :
    Fits (depth + 1) (obj fields)

/-! ## Fields in order -/

theorem insertField_of_notMem {name : String} {value : Json} {fields : List (String × Json)}
    (h : name ∉ fields.map Prod.fst) :
    insertField name value fields = fields ++ [(name, value)] := by
  induction fields with
  | nil => rfl
  | cons field rest ih =>
    rw [List.map_cons, List.mem_cons, not_or] at h
    rw [insertField, if_neg (Ne.symm h.1), ih h.2, List.cons_append]

theorem foldl_insertField {done fields : List (String × Json)}
    (h : ((done ++ fields).map Prod.fst).Nodup) :
    fields.foldl (fun done field ↦ insertField field.1 field.2 done) done = done ++ fields := by
  induction fields generalizing done with
  | nil => simp
  | cons field rest ih =>
    have hnew : field.1 ∉ done.map Prod.fst := by
      intro hold
      rw [List.map_append, List.map_cons, List.nodup_append] at h
      exact h.2.2 field.1 hold field.1 (by simp) rfl
    have hsplit : done ++ field :: rest = (done ++ [field]) ++ rest := by simp
    rw [List.foldl_cons, insertField_of_notMem hnew, hsplit]
    exact ih (hsplit ▸ h)

theorem ofFields_of_nodup {fields : List (String × Json)} (h : (fields.map Prod.fst).Nodup) :
    ofFields fields = obj fields := by
  rw [ofFields, foldl_insertField (by simpa using h), List.nil_append]

/-! ## Assembling the tokens of a value -/

variable {limit depth : Nat} {frames : List Frame} {rest : List Token}

theorem assemble_cons {expectation next : Expectation} {opened : List Frame} {token : Token}
    (h : advance limit expectation frames token = some (next, opened)) :
    assemble limit expectation frames (token :: rest) = assemble limit next opened rest := by
  rw [assemble, h]

theorem advance_itemOrEnd {token : Token} (h : token ≠ .closeBracket) :
    advance limit .itemOrEnd frames token = advance limit .value (.array [] :: frames) token := by
  cases token <;> first | rfl | exact absurd rfl h

/-- No value starts with the end of an array. -/
theorem exists_tokens_cons (value : Json) :
    ∃ token rest, tokens value = token :: rest ∧ token ≠ .closeBracket := by
  cases value with
  | arr items => cases items <;> exact ⟨_, _, rfl, by simp⟩
  | obj fields => cases fields <;> exact ⟨_, _, rfl, by simp⟩
  | _ => exact ⟨_, _, rfl, by simp⟩

theorem assemble_itemOrEnd (value : Json) :
    assemble limit .itemOrEnd frames (tokens value ++ rest) =
      assemble limit .value (.array [] :: frames) (tokens value ++ rest) := by
  obtain ⟨token, others, htokens, hne⟩ := exists_tokens_cons value
  rw [htokens, List.cons_append, assemble, assemble, advance_itemOrEnd hne]

/-- The reader takes a value from the front of the tokens whenever it may open `depth` more arrays
and objects. -/
def Assembles (limit depth : Nat) (value : Json) : Prop :=
  ∀ {frames : List Frame} {rest : List Token}, frames.length + depth ≤ limit →
    assemble limit .value frames (tokens value ++ rest) =
      assemble limit (.separator value) frames rest

theorem assemble_tokensOfItems {items : List Json} (h : ∀ item ∈ items, Assembles limit depth item)
    (value : Json) (done : List Json) (hdepth : frames.length + (depth + 1) ≤ limit) :
    assemble limit (.separator value) (.array done :: frames) (tokensOfItems items ++ rest) =
      assemble limit (.separator (arr (done.reverse ++ value :: items))) frames rest := by
  induction items generalizing value done with
  | nil =>
    rw [tokensOfItems, List.cons_append, List.nil_append]
    exact assemble_cons (by simp [advance, Frame.close])
  | cons item others ih =>
    have hothers : ∀ other ∈ others, Assembles limit depth other := fun other hother ↦
      h other (List.mem_cons_of_mem item hother)
    have hframes : (Frame.array (value :: done) :: frames).length + depth ≤ limit := by
      rw [List.length_cons]
      omega
    rw [tokensOfItems, List.cons_append, assemble_cons rfl, List.append_assoc,
      h item (by simp) hframes, ih hothers]
    simp

theorem assemble_tokensOfFields {fields : List (String × Json)}
    (h : ∀ field ∈ fields, Assembles limit depth field.2) (name : String) (value : Json)
    (done : List (String × Json)) (hdepth : frames.length + (depth + 1) ≤ limit) :
    assemble limit (.separator value) (.object done name :: frames)
        (tokensOfFields fields ++ rest) =
      assemble limit (.separator (ofFields (done.reverse ++ (name, value) :: fields))) frames
        rest := by
  induction fields generalizing name value done with
  | nil =>
    rw [tokensOfFields, List.cons_append, List.nil_append]
    exact assemble_cons (by simp [advance, Frame.close])
  | cons field others ih =>
    obtain ⟨other, next⟩ := field
    have hnext : Assembles limit depth next := h (other, next) (by simp)
    have hothers : ∀ field ∈ others, Assembles limit depth field.2 := fun field hfield ↦
      h field (List.mem_cons_of_mem _ hfield)
    have hframes :
        (Frame.object ((name, value) :: done) other :: frames).length + depth ≤ limit := by
      rw [List.length_cons]
      omega
    rw [tokensOfFields, List.cons_append, assemble_cons rfl, List.cons_append, assemble_cons rfl,
      List.cons_append, assemble_cons rfl, List.append_assoc, hnext hframes, ih hothers]
    simp

theorem Fits.assembles {value : Json} (h : Fits depth value) : Assembles limit depth value := by
  -- the depth is an index of the induction: an item may open one level less than its array
  induction h with
  | null => exact fun _ ↦ assemble_cons rfl
  | bool => exact fun _ ↦ assemble_cons rfl
  | int => exact fun _ ↦ assemble_cons rfl
  | real => exact fun _ ↦ assemble_cons rfl
  | nonfinite => exact fun _ ↦ assemble_cons rfl
  | str => exact fun _ ↦ assemble_cons rfl
  | @arr depth items items_fit ih =>
    intro frames rest hdepth
    have hopen : advance limit .value frames .openBracket = some (.itemOrEnd, frames) := by
      simp only [advance, begin?]
      rw [if_pos (by omega)]
    cases items with
    | nil =>
      rw [tokens, List.cons_append, assemble_cons hopen]
      exact assemble_cons rfl
    | cons item others =>
      have hothers : ∀ other ∈ others, Assembles limit depth other := fun other hother ↦
        ih other (List.mem_cons_of_mem item hother)
      have hframes : (Frame.array [] :: frames).length + depth ≤ limit := by
        rw [List.length_cons]
        omega
      rw [tokens, List.cons_append, assemble_cons hopen, List.append_assoc, assemble_itemOrEnd,
        ih item (by simp) hframes, assemble_tokensOfItems hothers item [] hdepth]
      rfl
  | @obj depth fields nodup values_fit ih =>
    intro frames rest hdepth
    have hopen : advance limit .value frames .openBrace = some (.nameOrEnd, frames) := by
      simp only [advance, begin?]
      rw [if_pos (by omega)]
    cases fields with
    | nil =>
      rw [tokens, List.cons_append, assemble_cons hopen]
      exact assemble_cons rfl
    | cons field others =>
      obtain ⟨name, value⟩ := field
      have hvalue : Assembles limit depth value := ih (name, value) (by simp)
      have hothers : ∀ field ∈ others, Assembles limit depth field.2 := fun field hfield ↦
        ih field (List.mem_cons_of_mem _ hfield)
      have hframes : (Frame.object [] name :: frames).length + depth ≤ limit := by
        rw [List.length_cons]
        omega
      rw [tokens, List.cons_append, assemble_cons hopen, List.cons_append, assemble_cons rfl,
        List.cons_append, assemble_cons rfl, List.append_assoc, hvalue hframes,
        assemble_tokensOfFields hothers name value [] hdepth, List.reverse_nil, List.nil_append,
        ofFields_of_nodup nodup]

/-- A value is read back from its text. -/
theorem Fits.parse?_render {value : Json} (h : Fits depth value) (hdepth : depth ≤ limit) :
    parse? limit value.render = some value := by
  have hread : assemble limit .value [] (tokens value ++ []) =
      assemble limit (.separator value) [] [] := h.assembles (by simpa using hdepth)
  rw [List.append_nil] at hread
  rw [parse?, render, String.toList_ofList, Token.scan_write]
  exact hread

/-! ## Characters of a text -/

/-- No character is a control below U+0020. -/
def AllVisible (chars : List Char) : Prop :=
  ∀ c ∈ chars, 0x20 ≤ c.toNat

@[simp]
theorem allVisible_nil : AllVisible [] := by
  simp [AllVisible]

@[simp]
theorem allVisible_cons {c : Char} {rest : List Char} :
    AllVisible (c :: rest) ↔ 0x20 ≤ c.toNat ∧ AllVisible rest :=
  List.forall_mem_cons

@[simp]
theorem allVisible_append {left right : List Char} :
    AllVisible (left ++ right) ↔ AllVisible left ∧ AllVisible right :=
  List.forall_mem_append

variable {after : List Char}

theorem allVisible_hexDigits (width value : Nat) : AllVisible (Text.hexDigits width value) := by
  have hdigit : ∀ digit < 16, 0x20 ≤ (Text.hexDigit digit).toNat := by decide
  induction width generalizing value with
  | zero => simp [Text.hexDigits]
  | succ width ih => simp [Text.hexDigits, ih, hdigit _ (Nat.mod_lt value _)]

theorem allVisible_escapeChar (c : Char) : AllVisible (escapeChar c) := by
  unfold escapeChar
  split_ifs with hquote hslash hnewline hreturn htab hback hfeed hcontrol
  case neg => simpa using hcontrol
  all_goals simp [allVisible_hexDigits]

theorem allVisible_writeString (text : String) (h : AllVisible after) :
    AllVisible (writeString text after) := by
  have hchars (chars : List Char) : AllVisible (writeChars chars after) := by
    induction chars with
    | nil => simpa [writeChars] using h
    | cons c rest ih => exact allVisible_append.mpr ⟨allVisible_escapeChar c, ih⟩
  exact allVisible_cons.mpr ⟨by decide, hchars text.toList⟩

theorem allVisible_writeInt (value : Int) (h : AllVisible after) :
    AllVisible (writeInt value after) := by
  have hdigits (n : Nat) : AllVisible (Nat.toDigits 10 n) := by
    intro c hc
    have hdigit := Token.isDigit_of_mem_toDigits hc
    have hzero : '0'.toNat ≤ c.toNat := by
      simp only [Char.isDigit, Bool.and_eq_true, decide_eq_true_eq] at hdigit
      exact UInt32.le_iff_toNat_le.mp hdigit.1
    exact Nat.le_trans (by decide) hzero
  cases value with
  | ofNat n => simp [writeInt, hdigits, h]
  | negSucc n => simp [writeInt, hdigits, h]

theorem allVisible_writeItems {items : List Json}
    (hitems : ∀ item ∈ items, ∀ {after}, AllVisible after → AllVisible (write item after))
    (h : AllVisible after) : AllVisible (writeItems items after) := by
  induction items with
  | nil => simpa [writeItems] using h
  | cons item rest ih =>
    have hrest := ih fun other hother ↦ hitems other (List.mem_cons_of_mem item hother)
    exact allVisible_cons.mpr ⟨by decide, hitems item (by simp) hrest⟩

theorem allVisible_writeFields {fields : List (String × Json)}
    (hfields : ∀ field ∈ fields, ∀ {after}, AllVisible after → AllVisible (write field.2 after))
    (h : AllVisible after) : AllVisible (writeFields fields after) := by
  induction fields with
  | nil => simpa [writeFields] using h
  | cons field rest ih =>
    obtain ⟨name, value⟩ := field
    have hrest := ih fun other hother ↦ hfields other (List.mem_cons_of_mem _ hother)
    have hvalue : AllVisible (':' :: write value (writeFields rest after)) :=
      allVisible_cons.mpr ⟨by decide, hfields (name, value) (by simp) hrest⟩
    exact allVisible_cons.mpr ⟨by decide, allVisible_writeString name hvalue⟩

theorem allVisible_write (value : Json) (h : AllVisible after) :
    AllVisible (write value after) := by
  induction value using inductionOnParts generalizing after with
  | null => simpa [write] using h
  | bool value => cases value <;> simpa [write, writeBool] using h
  | int value => exact allVisible_writeInt value h
  | real mantissa exponent =>
    have hexponent : AllVisible ('e' :: writeInt exponent after) :=
      allVisible_cons.mpr ⟨by decide, allVisible_writeInt exponent h⟩
    exact allVisible_writeInt mantissa hexponent
  | nonfinite => simpa [write] using h
  | str value => exact allVisible_writeString value h
  | arr items ih =>
    cases items with
    | nil => simpa [write] using h
    | cons item rest =>
      have hrest : AllVisible (writeItems rest after) :=
        allVisible_writeItems (fun other hother ↦ ih other (List.mem_cons_of_mem item hother)) h
      exact allVisible_cons.mpr ⟨by decide, ih item (by simp) hrest⟩
  | obj fields ih =>
    cases fields with
    | nil => simpa [write] using h
    | cons field rest =>
      obtain ⟨name, value⟩ := field
      have hrest : AllVisible (writeFields rest after) :=
        allVisible_writeFields (fun other hother ↦ ih other (List.mem_cons_of_mem _ hother)) h
      have hvalue : AllVisible (':' :: write value (writeFields rest after)) :=
        allVisible_cons.mpr ⟨by decide, ih (name, value) (by simp) hrest⟩
      exact allVisible_cons.mpr ⟨by decide, allVisible_writeString name hvalue⟩

theorem allVisible_render (value : Json) : AllVisible value.render.toList := by
  rw [render, String.toList_ofList]
  exact allVisible_write value allVisible_nil

end SyntaxMining.Json
