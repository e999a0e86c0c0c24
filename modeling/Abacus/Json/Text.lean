import Abacus.Json.Reader
import Abacus.Text.Utf8

/-!
# Texts in documents

The bytes between quotation marks are a text: an escape stands for a
character, the characters past the first plane are two escapes of
surrogates, and control characters must be escaped. What the escapes leave
has to be UTF-8. A text that nobody wants is passed over with less care:
its escapes are only looked at for their form.
-/

namespace Abacus

namespace Json

/-- The value of a digit of base sixteen. -/
def hexValue? (b : UInt8) : Option Nat :=
  if isDigit b then some (b.toNat - 48)
  else if 97 ≤ b.toNat ∧ b.toNat ≤ 102 then some (b.toNat - 87)
  else if 65 ≤ b.toNat ∧ b.toNat ≤ 70 then some (b.toNat - 55)
  else none

/-- A byte inside a text, taken. -/
def byteOfText : Reader UInt8 := do
  match ← Reader.next with
  | none => Reader.fail .endInText
  | some b => pure b

/-- The next byte inside a text, which has to be `b`: else it is taken and
the pair of surrogates it should go on with is broken. -/
def pairByte (b : UInt8) : Reader Unit := do
  match ← Reader.peek with
  | none => Reader.fail .endInText
  | some d =>
    Reader.skip
    if d = b then pure () else Reader.fail .halfSurrogatePair

/-- Four digits of base sixteen. -/
def codeUnit : Reader Nat := do
  let a ← byteOfText
  let b ← byteOfText
  let c ← byteOfText
  let d ← byteOfText
  match hexValue? a, hexValue? b, hexValue? c, hexValue? d with
  | some a, some b, some c, some d => pure (((a * 16 + b) * 16 + c) * 16 + d)
  | _, _, _, _ => Reader.fail .invalidEscape

/-- The bytes of the character with a code point. -/
def bytesOf (n : Nat) : List UInt8 := String.utf8EncodeChar (Char.ofNat n)

/-- The character of an escape by number. A leading surrogate asks for a
second escape. -/
def numberedEscape : Reader (List UInt8) := do
  let n ← codeUnit
  if 0xDC00 ≤ n ∧ n ≤ 0xDFFF then Reader.fail .loneSurrogate
  else if n < 0xD800 ∨ 0xDBFF < n then pure (bytesOf n)
  else
    pairByte (byte '\\')
    pairByte (byte 'u')
    let m ← codeUnit
    if m < 0xDC00 ∨ 0xDFFF < m then Reader.fail .loneSurrogate
    else pure (bytesOf ((n - 0xD800) * 0x400 + (m - 0xDC00) + 0x10000))

/-- The character that a letter after a backslash stands for. -/
def letterEscape? (b : UInt8) : Option UInt8 :=
  if b = byte '"' then some b
  else if b = byte '\\' then some b
  else if b = byte '/' then some b
  else if b = byte 'b' then some 8
  else if b = byte 'f' then some 12
  else if b = byte 'n' then some 10
  else if b = byte 'r' then some 13
  else if b = byte 't' then some 9
  else none

/-- What an escape stands for, from after its backslash. -/
def escaped : Reader (List UInt8) := do
  let b ← byteOfText
  if b = byte 'u' then numberedEscape
  else
    match letterEscape? b with
    | some c => pure [c]
    | none => Reader.fail .invalidEscape

/-- The bytes of a text from after its opening mark, in at most so many
rounds. -/
def textBytes : Nat → Reader (List UInt8)
  | 0 => Reader.fail .endInText
  | rounds + 1 => do
    let b ← byteOfText
    if b = byte '"' then pure []
    else if b = byte '\\' then
      let piece ← escaped
      let more ← textBytes rounds
      pure (piece ++ more)
    else if b < 0x20 then Reader.fail .controlCharacter
    else
      let more ← textBytes rounds
      pure (b :: more)

/-- The failure of bytes that are no text. Its place is that of the first
byte that begins no character, counted back from the closing mark over the
`left` bytes from there on. -/
def failUtf8 {α : Type} (left : Nat) : Reader α := fun s =>
  .error ⟨.invalidUtf8, some (s.taken - left)⟩ s

/-- **A text**, from after its opening mark. -/
def textBody : Reader (List Char) := do
  let bytes ← Reader.bounded textBytes
  let (text, left) := Utf8.front bytes
  if left.isEmpty then pure text else failUtf8 left.length

/-- An escape passed over. -/
def passEscape : Reader Unit := do
  let b ← byteOfText
  if b = byte 'u' then
    let _ ← codeUnit
    pure ()
  else
    match letterEscape? b with
    | some _ => pure ()
    | none => Reader.fail .invalidEscape

/-- The bytes of a text passed over, in at most so many rounds. A control
character is looked at and not taken. -/
def passBytes : Nat → Reader Unit
  | 0 => Reader.fail .endInText
  | rounds + 1 => do
    match ← Reader.peek with
    | none => Reader.fail .endInText
    | some b =>
      if b = byte '"' then Reader.skip
      else if b = byte '\\' then
        Reader.skip
        passEscape
        passBytes rounds
      else if b < 0x20 then Reader.fail .controlCharacter
      else
        Reader.skip
        passBytes rounds

/-- A text passed over, from after its opening mark. -/
def passText : Reader Unit := Reader.bounded passBytes

end Json

end Abacus
