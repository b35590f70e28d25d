import Mathlib.Data.List.Basic
import SyntaxMining.Json.Printer
import SyntaxMining.Json.Token

/-!
# Tokens of written values

A value is written without blanks, and the scanner cuts the text back into the tokens of the value.
Texts end at their closing mark. A number or a word has no mark at its end: it ends at the first
character that cannot extend it, and whatever follows a value starts with such a character.
-/

namespace SyntaxMining.Json

/-- Values are given part by part: those without parts, arrays by their items and objects by their
fields. -/
@[elab_as_elim]
theorem inductionOnParts {motive : Json → Prop} (null : motive null)
    (bool : ∀ value, motive (bool value)) (int : ∀ value, motive (int value))
    (real : ∀ mantissa exponent, motive (real mantissa exponent)) (nonfinite : motive nonfinite)
    (str : ∀ value, motive (str value))
    (arr : ∀ items, (∀ item ∈ items, motive item) → motive (arr items))
    (obj : ∀ fields, (∀ field ∈ fields, motive field.2) → motive (obj fields)) :
    ∀ value, motive value
  | .null => null
  | .bool value => bool value
  | .int value => int value
  | .real mantissa exponent => real mantissa exponent
  | .nonfinite => nonfinite
  | .str value => str value
  | .arr items =>
    arr items fun item _ ↦ inductionOnParts null bool int real nonfinite str arr obj item
  | .obj fields =>
    obj fields fun field _ ↦ inductionOnParts null bool int real nonfinite str arr obj field.2
termination_by value => sizeOf value
decreasing_by
  · have hsize := List.sizeOf_lt_of_mem ‹item ∈ items›
    simp only [Json.arr.sizeOf_spec]
    omega
  · have hsize := List.sizeOf_lt_of_mem ‹field ∈ fields›
    obtain ⟨name, value⟩ := field
    simp only [Prod.mk.sizeOf_spec] at hsize
    simp only [Json.obj.sizeOf_spec]
    omega

mutual

/-- Tokens of a value. -/
def tokens : Json → List Token
  | null => [.null]
  | bool value => [.bool value]
  | int value => [.int value]
  | real mantissa exponent => [.real mantissa exponent]
  | nonfinite => [.nonfinite]
  | str value => [.str value]
  | arr [] => [.openBracket, .closeBracket]
  | arr (item :: rest) => .openBracket :: (tokens item ++ tokensOfItems rest)
  | obj [] => [.openBrace, .closeBrace]
  | obj ((name, value) :: rest) =>
    .openBrace :: .str name :: .colon :: (tokens value ++ tokensOfFields rest)

/-- Tokens of the further items of an array. -/
def tokensOfItems : List Json → List Token
  | [] => [.closeBracket]
  | item :: rest => .comma :: (tokens item ++ tokensOfItems rest)

/-- Tokens of the further fields of an object. -/
def tokensOfFields : List (String × Json) → List Token
  | [] => [.closeBrace]
  | (name, value) :: rest =>
    .comma :: .str name :: .colon :: (tokens value ++ tokensOfFields rest)

end

namespace Token

/-! ## Numbers -/

theorem decimal_toDigits (n : Nat) : decimal (Nat.toDigits 10 n) = n := by
  have h : decimal (Nat.toDigits 10 n) = Nat.ofDigitChars 10 (Nat.toDigits 10 n) 0 := by
    rw [Nat.ofDigitChars_eq_foldl, decimal]
    congr 1
    funext value c
    rw [digitValue, Nat.mul_comm]
    rfl
  rw [h, Nat.ofDigitChars_ten_toDigits]

theorem isDigit_of_mem_toDigits {n : Nat} {c : Char} (h : c ∈ Nat.toDigits 10 n) :
    c.isDigit = true :=
  Nat.isDigit_of_mem_toDigits (by decide) (by decide) h

/-- No number but zero is written with a leading zero. -/
theorem eq_zero_of_head?_toDigits {n : Nat} (h : (Nat.toDigits 10 n).head? = some '0') :
    n = 0 := by
  induction n using Nat.strongRecOn with
  | ind n ih =>
    rw [Nat.toDigits_eq_if (by decide)] at h
    split at h
    · simpa using h
    · rw [List.head?_append_of_ne_nil _ Nat.toDigits_ne_nil] at h
      have hquotient := ih (n / 10) (by omega) h
      omega

/-- The digits of a number are well-formed before a point or an exponent. -/
theorem whole_toDigits (n : Nat) :
    ((Nat.toDigits 10 n).isEmpty ||
      ((Nat.toDigits 10 n).head? = some '0' && (Nat.toDigits 10 n).length ≠ 1)) = false := by
  have hne : Nat.toDigits 10 n ≠ [] := Nat.toDigits_ne_nil
  have hzero : (Nat.toDigits 10 n).head? = some '0' → (Nat.toDigits 10 n).length = 1 := by
    intro hhead
    rw [eq_zero_of_head?_toDigits hhead]
    rfl
  simpa [hne] using hzero

theorem exists_toDigits_cons (n : Nat) :
    ∃ c rest, Nat.toDigits 10 n = c :: rest ∧ c.isDigit = true := by
  cases h : Nat.toDigits 10 n with
  | nil => exact absurd h Nat.toDigits_ne_nil
  | cons c rest => exact ⟨c, rest, rfl, isDigit_of_mem_toDigits (h ▸ List.mem_cons_self)⟩

theorem ne_of_isDigit {c other : Char} (h : c.isDigit = true) (hother : other.isDigit = false) :
    c ≠ other := by
  rintro rfl
  exact Bool.false_ne_true (hother.symm.trans h)

theorem span_toDigits (n : Nat) (rest : List Char) (h : ∀ c ∈ rest.head?, c.isDigit = false) :
    (Nat.toDigits 10 n ++ rest).takeWhile Char.isDigit = Nat.toDigits 10 n ∧
      (Nat.toDigits 10 n ++ rest).dropWhile Char.isDigit = rest := by
  have hdigits : ∀ c ∈ Nat.toDigits 10 n, c.isDigit = true := fun c ↦ isDigit_of_mem_toDigits
  rw [List.takeWhile_append_of_pos hdigits, List.dropWhile_append_of_pos hdigits]
  cases rest with
  | nil => simp
  | cons c rest => simp [h c (by simp)]

theorem readUnsigned_whole (negative : Bool) (n : Nat) :
    readUnsigned negative (Nat.toDigits 10 n ++ []) =
      some (int ((if negative then -1 else 1) * n)) := by
  obtain ⟨htake, hdrop⟩ := span_toDigits n [] (by simp)
  simp only [readUnsigned, htake, hdrop, whole_toDigits, decimal_toDigits]
  rfl

theorem readUnsigned_exponent (negative : Bool) (n : Nat) (exponent : List Char) :
    readUnsigned negative (Nat.toDigits 10 n ++ 'e' :: exponent) =
      (readExponent ('e' :: exponent)).map (real ((if negative then -1 else 1) * n)) := by
  obtain ⟨htake, hdrop⟩ := span_toDigits n ('e' :: exponent) (by simp)
  simp only [readUnsigned, htake, hdrop, whole_toDigits, decimal_toDigits]
  rfl

theorem readNumber_writeInt (value : Int) (after : List Char) :
    readNumber (writeInt value after) =
      readUnsigned (decide (value < 0)) (Nat.toDigits 10 value.natAbs ++ after) := by
  cases value with
  | ofNat n =>
    obtain ⟨c, rest, hcons, hdigit⟩ := exists_toDigits_cons n
    have hminus : c ≠ '-' := ne_of_isDigit hdigit rfl
    have hsign : decide (Int.ofNat n < 0) = false := by simp
    rw [hsign]
    simp [writeInt, readNumber, hcons, hminus]
  | negSucc n => simp [writeInt, readNumber]

theorem sign_mul_natAbs (value : Int) :
    (if decide (value < 0) = true then -1 else 1) * (value.natAbs : Int) = value := by
  by_cases hnegative : value < 0
  · rw [if_pos (by simpa using hnegative)]
    omega
  · rw [if_neg (by simpa using hnegative)]
    omega

theorem readExponent_writeInt (value : Int) :
    readExponent ('e' :: writeInt value []) = some value := by
  have hall (n : Nat) : (Nat.toDigits 10 n).all Char.isDigit = true :=
    List.all_eq_true.mpr fun c ↦ isDigit_of_mem_toDigits
  have hne (n : Nat) : (Nat.toDigits 10 n).isEmpty = false := by simp [Nat.toDigits_ne_nil]
  cases value with
  | ofNat n =>
    obtain ⟨c, rest, hcons, hdigit⟩ := exists_toDigits_cons n
    have hplus : c ≠ '+' := ne_of_isDigit hdigit rfl
    have hminus : c ≠ '-' := ne_of_isDigit hdigit rfl
    have hdigits := hall n
    have hvalue := decimal_toDigits n
    rw [hcons] at hdigits hvalue
    simp only [writeInt, readExponent, hcons, List.append_nil]
    simp [hplus, hminus, hdigits, hvalue]
  | negSucc n =>
    simp only [writeInt, readExponent, List.append_nil, hne, hall, decimal_toDigits]
    rfl

theorem readNumber_int (value : Int) : readNumber (writeInt value []) = some (int value) := by
  rw [readNumber_writeInt, readUnsigned_whole, sign_mul_natAbs]

theorem readNumber_real (mantissa exponent : Int) :
    readNumber (writeInt mantissa ('e' :: writeInt exponent [])) =
      some (real mantissa exponent) := by
  rw [readNumber_writeInt, readUnsigned_exponent, sign_mul_natAbs, readExponent_writeInt,
    Option.map_some]

/-! ## Ends of numbers and words -/

/-- A text that starts with nothing that would extend a number or a word. -/
def Ends (after : List Char) : Prop :=
  ∀ c ∈ after.head?, isNumberPart c = false ∧ c.isAlpha = false

theorem ends_nil : Ends [] := by
  simp [Ends]

theorem ends_cons {c : Char} (hnumber : isNumberPart c = false) (hword : c.isAlpha = false)
    (rest : List Char) : Ends (c :: rest) := by
  simp [Ends, hnumber, hword]

variable {done : List Token} {after : List Char} {token : Token}

theorem scanFrom_endThen {state : State} {c : Char} (rest : List Char)
    (h : step state c = endThen (some token) c) :
    scanFrom state done (c :: rest) = scanFrom .between (token :: done) (c :: rest) := by
  -- a character that starts no token is refused on both sides
  rw [scanFrom, scanFrom, h, step]
  cases hstart : start c with
  | none => simp [endThen, hstart]
  | some next => simp [endThen, hstart]

theorem scanFrom_number {chars : List Char} (hread : readNumber chars.reverse = some token)
    (hafter : Ends after) :
    scanFrom (.number chars) done after = scanFrom .between (token :: done) after := by
  cases after with
  | nil => simp [scanFrom, finish, hread]
  | cons c rest =>
    obtain ⟨hnumber, hword⟩ := hafter c rfl
    exact scanFrom_endThen rest (by simp [step, hnumber, hword, hread])

theorem scanFrom_word (chars : List Char) (hread : readWord chars.reverse = some token)
    (hafter : Ends after) :
    scanFrom (.word chars) done after = scanFrom .between (token :: done) after := by
  cases after with
  | nil => simp [scanFrom, finish, hread]
  | cons c rest =>
    obtain ⟨-, hword⟩ := hafter c rfl
    exact scanFrom_endThen rest (by simp [step, hword, hread])

theorem start_of_isDigit {c : Char} (h : c.isDigit = true) : start c = some ([], .number [c]) := by
  have hne : ∀ other : Char, other.isDigit = false → c ≠ other := fun _ ↦ ne_of_isDigit h
  simp [start, isSpace, h, hne]

theorem scanFrom_number_append (chars : List Char) {part : List Char}
    (h : ∀ c ∈ part, isNumberPart c = true) :
    scanFrom (.number chars) done (part ++ after) =
      scanFrom (.number (part.reverse ++ chars)) done after := by
  induction part generalizing chars with
  | nil => rfl
  | cons c rest ih =>
    have hrest := ih (c :: chars) fun other hother ↦ h other (List.mem_cons_of_mem c hother)
    simp [scanFrom, step, h c (by simp), hrest]

/-! ## Written numbers -/

/-- Characters that are read as one number. -/
def IsNumeral (token : Token) : List Char → Prop
  | [] => False
  | first :: rest =>
    start first = some ([], .number [first]) ∧ (∀ c ∈ rest, isNumberPart c = true) ∧
      readNumber (first :: rest) = some token

theorem IsNumeral.scanFrom_append {chars : List Char} (h : IsNumeral token chars)
    (hafter : Ends after) :
    scanFrom .between done (chars ++ after) = scanFrom .between (token :: done) after := by
  cases chars with
  | nil => exact h.elim
  | cons first rest =>
    obtain ⟨hstart, hparts, hread⟩ := h
    have hreverse : readNumber (rest.reverse ++ [first]).reverse = some token := by
      simpa using hread
    calc
      scanFrom .between done (first :: (rest ++ after)) =
          scanFrom (.number [first]) done (rest ++ after) := by
        simp [scanFrom, step, hstart]
      _ = scanFrom (.number (rest.reverse ++ [first])) done after := scanFrom_number_append _ hparts
      _ = scanFrom .between (token :: done) after := scanFrom_number hreverse hafter

theorem isNumberPart_or_mem_of_mem_writeInt {value : Int} {c : Char}
    (h : c ∈ writeInt value after) : isNumberPart c = true ∨ c ∈ after := by
  have hdigits {n : Nat} (h : c ∈ Nat.toDigits 10 n ++ after) :
      isNumberPart c = true ∨ c ∈ after := by
    rcases List.mem_append.mp h with hdigit | hafter
    · exact .inl (by simp [isNumberPart, isDigit_of_mem_toDigits hdigit])
    · exact .inr hafter
  cases value with
  | ofNat n => exact hdigits h
  | negSucc n =>
    rcases List.mem_cons.mp h with rfl | hrest
    · exact .inl rfl
    · exact hdigits hrest

theorem isNumeral_writeInt {value : Int} {exponent : List Char}
    (hexponent : ∀ c ∈ exponent, isNumberPart c = true)
    (hread : readNumber (writeInt value exponent) = some token) :
    IsNumeral token (writeInt value exponent) := by
  have hparts : ∀ c ∈ writeInt value exponent, isNumberPart c = true := fun c hc ↦
    (isNumberPart_or_mem_of_mem_writeInt hc).elim id (hexponent c)
  cases value with
  | ofNat n =>
    obtain ⟨c, rest, hcons, hdigit⟩ := exists_toDigits_cons n
    rw [writeInt, hcons] at hread hparts ⊢
    exact ⟨start_of_isDigit hdigit, fun c hc ↦ hparts c (List.mem_cons_of_mem _ hc), hread⟩
  | negSucc n => exact ⟨rfl, fun c hc ↦ hparts c (List.mem_cons_of_mem _ hc), hread⟩

theorem writeInt_append (value : Int) (left right : List Char) :
    writeInt value (left ++ right) = writeInt value left ++ right := by
  cases value with
  | ofNat n => simp [writeInt]
  | negSucc n => simp [writeInt]

theorem scanFrom_writeInt (value : Int) (hafter : Ends after) :
    scanFrom .between done (writeInt value after) =
      scanFrom .between (int value :: done) after := by
  have hnumeral := isNumeral_writeInt (by simp) (readNumber_int value)
  rw [← hnumeral.scanFrom_append hafter, ← writeInt_append, List.nil_append]

theorem scanFrom_writeReal (mantissa exponent : Int) (hafter : Ends after) :
    scanFrom .between done (writeInt mantissa ('e' :: writeInt exponent after)) =
      scanFrom .between (real mantissa exponent :: done) after := by
  have hexponent : ∀ c ∈ 'e' :: writeInt exponent [], isNumberPart c = true := by
    intro c hc
    rcases List.mem_cons.mp hc with rfl | hrest
    · rfl
    · simpa using isNumberPart_or_mem_of_mem_writeInt hrest
  have hnumeral := isNumeral_writeInt hexponent (readNumber_real mantissa exponent)
  rw [← hnumeral.scanFrom_append hafter, ← writeInt_append, List.cons_append, ← writeInt_append,
    List.nil_append]

/-! ## Written texts -/

theorem hexValue_hexDigit : ∀ value < 16, hexValue (Text.hexDigit value) = some value := by
  decide

/-- Four hexadecimal digits stand for a character below the surrogates. -/
theorem scanFrom_hexDigits (chars : List Char) {c : Char} (h : c.toNat < 0xD800) :
    scanFrom (.hex chars none 4 0) done (Text.hexDigits 4 c.toNat ++ after) =
      scanFrom (.text (c :: chars)) done after := by
  have hdigit (n : Nat) : hexValue (Text.hexDigit (n % 16)) = some (n % 16) :=
    hexValue_hexDigit _ (Nat.mod_lt _ (by decide))
  have hunit : (((c.toNat / 16 / 16 / 16 % 16) * 16 + c.toNat / 16 / 16 % 16) * 16 +
      c.toNat / 16 % 16) * 16 + c.toNat % 16 = c.toNat := by omega
  have hhigh : isHighSurrogate c.toNat = false := by
    simp [isHighSurrogate]
    omega
  have hlow : isLowSurrogate c.toNat = false := by
    simp [isLowSurrogate]
    omega
  have hclose : closeUnit chars none c.toNat = some (.text (c :: chars)) := by
    simp [closeUnit, hhigh, hlow]
  simp [Text.hexDigits, scanFrom, step, hdigit, hunit, hclose]

theorem scanFrom_escapeChar (chars : List Char) (c : Char) :
    scanFrom (.text chars) done (escapeChar c ++ after) =
      scanFrom (.text (c :: chars)) done after := by
  unfold escapeChar
  split_ifs with hquote hslash hnewline hreturn htab hback hfeed hcontrol
  · subst hquote
    rfl
  · subst hslash
    rfl
  · subst hnewline
    rfl
  · subst hreturn
    rfl
  · subst htab
    rfl
  · obtain rfl : Char.ofNat 0x08 = c := hback ▸ c.ofNat_toNat
    rfl
  · obtain rfl : Char.ofNat 0x0C = c := hfeed ▸ c.ofNat_toNat
    rfl
  · exact scanFrom_hexDigits chars (by omega)
  · simp [scanFrom, step, hquote, hslash, hcontrol]

theorem scanFrom_writeChars (read chars : List Char) :
    scanFrom (.text read) done (writeChars chars after) =
      scanFrom .between (str (String.ofList (read.reverse ++ chars)) :: done) after := by
  induction chars generalizing read with
  | nil => simp [writeChars, scanFrom, step]
  | cons c rest ih =>
    rw [writeChars, scanFrom_escapeChar, ih]
    simp

theorem scanFrom_writeString (text : String) :
    scanFrom .between done (writeString text after) =
      scanFrom .between (str text :: done) after := by
  have hopen : scanFrom .between done (writeString text after) =
      scanFrom (.text []) done (writeChars text.toList after) := rfl
  rw [hopen, scanFrom_writeChars]
  simp

/-! ## Written values -/

theorem ends_writeItems (items : List Json) (after : List Char) :
    Ends (writeItems items after) := by
  cases items with
  | nil => exact ends_cons rfl rfl after
  | cons item rest => exact ends_cons rfl rfl _

theorem ends_writeFields (fields : List (String × Json)) (after : List Char) :
    Ends (writeFields fields after) := by
  cases fields with
  | nil => exact ends_cons rfl rfl after
  | cons field rest => exact ends_cons rfl rfl _

/-- The scanner reads a written value, whatever it has read and whatever follows. -/
def Scans (value : Json) : Prop :=
  ∀ {done : List Token} {after : List Char}, Ends after →
    scanFrom .between done (write value after) =
      scanFrom .between ((tokens value).reverse ++ done) after

theorem scanFrom_writeItems {items : List Json} (h : ∀ item ∈ items, Scans item) :
    scanFrom .between done (writeItems items after) =
      scanFrom .between ((tokensOfItems items).reverse ++ done) after := by
  induction items generalizing done with
  | nil => rfl
  | cons item rest ih =>
    have hrest : ∀ other ∈ rest, Scans other := fun other hother ↦
      h other (List.mem_cons_of_mem item hother)
    calc
      scanFrom .between done (writeItems (item :: rest) after) =
          scanFrom .between (comma :: done) (write item (writeItems rest after)) := rfl
      _ = scanFrom .between ((tokensOfItems (item :: rest)).reverse ++ done) after := by
        rw [h item (by simp) (ends_writeItems rest after), ih hrest]
        simp [tokensOfItems]

theorem scanFrom_writeFields {fields : List (String × Json)} (h : ∀ field ∈ fields, Scans field.2) :
    scanFrom .between done (writeFields fields after) =
      scanFrom .between ((tokensOfFields fields).reverse ++ done) after := by
  induction fields generalizing done with
  | nil => rfl
  | cons field rest ih =>
    obtain ⟨name, value⟩ := field
    have hvalue : Scans value := h (name, value) (by simp)
    have hrest : ∀ other ∈ rest, Scans other.2 := fun other hother ↦
      h other (List.mem_cons_of_mem _ hother)
    calc
      scanFrom .between done (writeFields ((name, value) :: rest) after) =
          scanFrom .between (comma :: done)
            (writeString name (':' :: write value (writeFields rest after))) := rfl
      _ = scanFrom .between (colon :: str name :: comma :: done)
            (write value (writeFields rest after)) := by
        rw [scanFrom_writeString]
        rfl
      _ = scanFrom .between ((tokensOfFields ((name, value) :: rest)).reverse ++ done) after := by
        rw [hvalue (ends_writeFields rest after), ih hrest]
        simp [tokensOfFields]

theorem scans (value : Json) : Scans value := by
  induction value using inductionOnParts with
  | null =>
    intro done after hafter
    exact scanFrom_word ['l', 'l', 'u', 'n'] rfl hafter
  | bool value =>
    intro done after hafter
    cases value with
    | true => exact scanFrom_word ['e', 'u', 'r', 't'] rfl hafter
    | false => exact scanFrom_word ['e', 's', 'l', 'a', 'f'] rfl hafter
  | int value =>
    intro done after hafter
    exact scanFrom_writeInt value hafter
  | real mantissa exponent =>
    intro done after hafter
    exact scanFrom_writeReal mantissa exponent hafter
  | nonfinite =>
    intro done after hafter
    exact scanFrom_word ['N', 'a', 'N'] rfl hafter
  | str value =>
    intro done after _
    exact scanFrom_writeString value
  | arr items ih =>
    intro done after _
    cases items with
    | nil => rfl
    | cons item rest =>
      have hrest : ∀ other ∈ rest, Scans other := fun other hother ↦
        ih other (List.mem_cons_of_mem item hother)
      calc
        scanFrom .between done (write (.arr (item :: rest)) after) =
            scanFrom .between (openBracket :: done) (write item (writeItems rest after)) := rfl
        _ = scanFrom .between ((tokens (.arr (item :: rest))).reverse ++ done) after := by
          rw [ih item (by simp) (ends_writeItems rest after), scanFrom_writeItems hrest]
          simp [tokens]
  | obj fields ih =>
    intro done after _
    cases fields with
    | nil => rfl
    | cons field rest =>
      obtain ⟨name, value⟩ := field
      have hvalue : Scans value := ih (name, value) (by simp)
      have hrest : ∀ other ∈ rest, Scans other.2 := fun other hother ↦
        ih other (List.mem_cons_of_mem _ hother)
      calc
        scanFrom .between done (write (.obj ((name, value) :: rest)) after) =
            scanFrom .between (openBrace :: done)
              (writeString name (':' :: write value (writeFields rest after))) := rfl
        _ = scanFrom .between (colon :: str name :: openBrace :: done)
              (write value (writeFields rest after)) := by
          rw [scanFrom_writeString]
          rfl
        _ = scanFrom .between ((tokens (.obj ((name, value) :: rest))).reverse ++ done) after := by
          rw [hvalue (ends_writeFields rest after), scanFrom_writeFields hrest]
          simp [tokens]

/-- A written value is cut into its tokens. -/
theorem scan_write (value : Json) : scan (write value []) = some (tokens value) := by
  rw [scan, scans value ends_nil]
  simp [scanFrom, finish]

end Token

end SyntaxMining.Json
