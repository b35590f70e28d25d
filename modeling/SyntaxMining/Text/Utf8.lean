/-!
# Decoding bytes as UTF-8

A byte string is read as UTF-8 and never refused.  Each maximal run of bytes that starts like a
character and breaks off becomes one replacement character, and a byte that can start nothing
becomes one as well.
-/

namespace SyntaxMining.Text.Utf8

/-- U+FFFD, written for bytes that are no character. -/
def replacement : Char := Char.ofNat 0xFFFD

/-- A character under construction: how many bytes it still needs, the range its next byte has to
lie in, and the bits read so far. -/
structure Partial where
  missing : Nat
  lower : Nat
  upper : Nat
  bits : Nat

/-- What a byte does when no character is under construction. -/
def start (byte : Nat) : List Char × Option Partial :=
  if byte < 0x80 then ([Char.ofNat byte], none)
  else if 0xC2 ≤ byte ∧ byte ≤ 0xDF then ([], some ⟨1, 0x80, 0xBF, byte % 0x20⟩)
  else if byte = 0xE0 then ([], some ⟨2, 0xA0, 0xBF, byte % 0x10⟩)
  else if byte = 0xED then ([], some ⟨2, 0x80, 0x9F, byte % 0x10⟩)
  else if 0xE1 ≤ byte ∧ byte ≤ 0xEF then ([], some ⟨2, 0x80, 0xBF, byte % 0x10⟩)
  else if byte = 0xF0 then ([], some ⟨3, 0x90, 0xBF, byte % 0x08⟩)
  else if 0xF1 ≤ byte ∧ byte ≤ 0xF3 then ([], some ⟨3, 0x80, 0xBF, byte % 0x08⟩)
  else if byte = 0xF4 then ([], some ⟨3, 0x80, 0x8F, byte % 0x08⟩)
  else ([replacement], none)

/-- Reads one byte after a possibly unfinished character. -/
def step : Option Partial → Nat → List Char × Option Partial
  | none, byte => start byte
  | some p, byte =>
    if p.lower ≤ byte ∧ byte ≤ p.upper then
      let bits := p.bits * 0x40 + byte % 0x40
      if p.missing ≤ 1 then ([Char.ofNat bits], none)
      else ([], some ⟨p.missing - 1, 0x80, 0xBF, bits⟩)
    else
      let next := start byte
      (replacement :: next.1, next.2)

/-- Characters of a byte string that follows a possibly unfinished character. -/
def decodeFrom : Option Partial → List UInt8 → List Char
  | none, [] => []
  | some _, [] => [replacement]
  | state, byte :: bytes =>
    let next := step state byte.toNat
    next.1 ++ decodeFrom next.2 bytes

/-- Text of a byte string. -/
def decode (bytes : List UInt8) : String :=
  String.ofList (decodeFrom none bytes)

/-- Bytes of a text. -/
def encode (text : String) : List UInt8 :=
  text.toUTF8.toList

/-- Text of a byte string that is UTF-8 throughout. -/
def decode? (bytes : List UInt8) : Option String :=
  let text := decode bytes
  if encode text = bytes then some text else none

end SyntaxMining.Text.Utf8
