/-!
# UTF-8

Bytes come from files and from the command line, and need not be text. `encode` and `decode?` pass
between texts and their bytes. `decodeLossy` reads any bytes for display: every longest beginning of
a sequence that cannot be completed is shown as one U+FFFD.
-/

namespace Concord.Text

/-- A string of bytes. -/
abbrev Bytes := List UInt8

/-- The bytes of a text. -/
def encode (s : String) : Bytes := s.toList.flatMap String.utf8EncodeChar

/-- The text that the bytes spell, if they are valid UTF-8. -/
def decode? (bytes : Bytes) : Option String := String.fromUTF8? bytes.toByteArray

/-- Reading what was written gives back the text. -/
theorem decode?_encode (s : String) : decode? (encode s) = some s := by
  have h : (encode s).toByteArray = s.toByteArray := String.utf8Encode_toList
  simp only [decode?, h, String.fromUTF8?, dif_pos s.isValidUTF8]
  rfl

/-- A sequence of bytes that has begun: the bits read so far, the range of the next byte, and how
many bytes are owed. -/
structure Sequence where
  bits : Nat
  low : Nat
  high : Nat
  owed : Nat

/-- The character shown in place of bytes that are not text. -/
def replacement : Char := '\uFFFD'

/-- A byte between two characters: what it shows, and the sequence it begins. -/
def lead (byte : UInt8) : List Char × Option Sequence :=
  let b := byte.toNat
  if b < 0x80 then ([.ofNat b], none)
  else if b < 0xC2 then ([replacement], none)
  else if b < 0xE0 then ([], some ⟨b - 0xC0, 0x80, 0xBF, 1⟩)
  else if b < 0xF0 then
    let low := if b = 0xE0 then 0xA0 else 0x80
    let high := if b = 0xED then 0x9F else 0xBF
    ([], some ⟨b - 0xE0, low, high, 2⟩)
  else if b < 0xF5 then
    let low := if b = 0xF0 then 0x90 else 0x80
    let high := if b = 0xF4 then 0x8F else 0xBF
    ([], some ⟨b - 0xF0, low, high, 3⟩)
  else ([replacement], none)

/-- A byte after a sequence has begun, or between two characters. A byte that does not continue the
sequence ends it and is read afresh. -/
def feed (begun : Option Sequence) (byte : UInt8) : List Char × Option Sequence :=
  match begun with
  | none => lead byte
  | some s =>
    if s.low ≤ byte.toNat ∧ byte.toNat ≤ s.high then
      let bits := s.bits * 64 + (byte.toNat - 0x80)
      if s.owed ≤ 1 then ([.ofNat bits], none) else ([], some ⟨bits, 0x80, 0xBF, s.owed - 1⟩)
    else
      let (shown, next) := lead byte
      (replacement :: shown, next)

/-- What the bytes show after a sequence has begun, or between two characters. -/
def decodeLossyAfter (begun : Option Sequence) : Bytes → List Char
  | [] => if begun.isSome then [replacement] else []
  | b :: bs =>
    let (shown, next) := feed begun b
    shown ++ decodeLossyAfter next bs

/-- The text shown for any bytes. -/
def decodeLossy (bytes : Bytes) : String := .ofList (decodeLossyAfter none bytes)

end Concord.Text
